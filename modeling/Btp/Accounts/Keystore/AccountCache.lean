import Mathlib
import Btp.Common.Types
import Btp.Lib.SortSearch

/-!
# The keystore's account cache

`accountCache` of `accounts/keystore/account_cache.go`: the accounts of the
key files, as a list sorted by URL (`all`) and as lists by address
(`byAddr`). `add` inserts at the place `sort.Search` finds, unless the
account found there is the same; `delete` removes an account from both;
`deleteByFile` searches the sorted list by path and removes what it finds;
`scanAccounts` applies what the file cache reports changed, reading each new
or rewritten key file; `find` looks an account up by URL and address.

The file system is given by what reading a key file's JSON yields for its
address (`none` when the file cannot be opened or decoded), and the file
cache's scan by the three lists of paths it reports. `filepath.Join` is a
parameter of `find`. The watcher, the throttle and the notification channel
are left out.

With only `add` calls, two accounts of one URL and different addresses both
enter the list, and `find` with a path and no address refuses an unmatched
path even when one account is cached (`add_keeps_two_accounts_of_one_URL`).

The searches of `add` and `deleteByFile` are lower bounds in the URL order
and in the path order (`SortSearch`), so on a list of key-file URLs, strictly
sorted, `add` is the ordered insertion and `deleteByFile` the `delete` of the
account of the path. The invariant `Inv` holds of every cache a run of legal
calls reaches (`Reach.inv`); a scan is followed against the view of the key
files it reports (`Mirrors.scanAccounts`), and `find` against the candidates
in URL order (`Inv.find`).
-/

namespace Btp.Keystore

/-- `accounts.URL`. -/
structure URL where
  Scheme : String
  Path : String
  deriving DecidableEq, Repr

/-- `strings.Compare`. -/
def strCompare (a b : String) : Int := if a < b then -1 else if a = b then 0 else 1

/-- `URL.Cmp`: by scheme, then by path. -/
def URL.Cmp (u url : URL) : Int :=
  if u.Scheme = url.Scheme then strCompare u.Path url.Path else strCompare u.Scheme url.Scheme

/-- `accounts.Account`. -/
structure Account where
  Address : Address
  URL : URL
  deriving DecidableEq, Repr

/-- `KeyStoreScheme`. -/
def KeyStoreScheme : String := "keystore"

/-- `filepath.Separator`. -/
def Separator : Char := '/'

/-- The errors of `find`. -/
inductive FindError
  /-- `ErrNoMatch`: "no key for given address or file". -/
  | ErrNoMatch
  | AmbiguousAddrError (Addr : Address) (Matches : List Account)
  deriving DecidableEq, Repr

/-- `accountCache`, without its watcher, throttle and channel. -/
structure accountCache where
  keydir : String
  all : List Account
  byAddr : GoMap Address (List Account)

/-- `newAccountCache`. -/
def newAccountCache (keydir : String) : accountCache := ⟨keydir, [], ∅⟩

namespace accountCache

/-- `add`: the account goes at the first place whose URL is not below its
own, unless the account there is the same. -/
def add (ac : accountCache) (newAccount : Account) : accountCache :=
  let i := ac.all.findIdx fun a => decide (a.URL.Cmp newAccount.URL ≥ 0)
  if ac.all[i]? = some newAccount then ac
  else
    { ac with
      all := ac.all.insertIdx i newAccount
      byAddr := ac.byAddr.insert newAccount.Address
        ((ac.byAddr.lookup newAccount.Address).getD [] ++ [newAccount]) }

/-- `removeAccount`: the first element equal to `elem` removed. -/
def removeAccount (slice : List Account) (elem : Account) : List Account := slice.erase elem

/-- The end `delete` and `deleteByFile` share: the account removed from the
list of its address, and the address dropped when nothing is left. -/
def dropByAddr (byAddr : GoMap Address (List Account)) (removed : Account) :
    GoMap Address (List Account) :=
  let ba := removeAccount ((byAddr.lookup removed.Address).getD []) removed
  if ba.length = 0 then byAddr.erase removed.Address else byAddr.insert removed.Address ba

/-- `delete`. -/
def delete (ac : accountCache) (removed : Account) : accountCache :=
  { ac with all := removeAccount ac.all removed, byAddr := dropByAddr ac.byAddr removed }

/-- `deleteByFile`: the sorted list searched by path. -/
def deleteByFile (ac : accountCache) (path : String) : accountCache :=
  let i := ac.all.findIdx fun a => decide (a.URL.Path ≥ path)
  match ac.all[i]? with
  | some removed =>
    if removed.URL.Path = path then
      { ac with all := ac.all.eraseIdx i, byAddr := dropByAddr ac.byAddr removed }
    else ac
  | none => ac

/-- `sort.Sort(accountsByURL(matches))`. -/
def sortByURL (matching : List Account) : List Account :=
  matching.mergeSort fun a b => decide ¬b.URL.Cmp a.URL < 0

/-- `find`: by URL when a path is given, else the one account of the
address, or of the cache when no address is given. -/
def find (join : String → String → String) (ac : accountCache) (a : Account) :
    Except FindError Account :=
  let matching := if a.Address ≠ 0 then (ac.byAddr.lookup a.Address).getD [] else ac.all
  let byCount : Except FindError Account :=
    match matching with
    | [m] => .ok m
    | [] => .error .ErrNoMatch
    | _ => .error (.AmbiguousAddrError a.Address (sortByURL matching))
  if a.URL.Path ≠ "" then
    -- a bare file name is completed with the key directory
    let a := if a.URL.Path.contains Separator then a
      else { a with URL := { a.URL with Path := join ac.keydir a.URL.Path } }
    match matching.find? (·.URL = a.URL) with
    | some m => .ok m
    | none => if a.Address = 0 then .error .ErrNoMatch else byCount
  else byCount

/-- `readAccount` of `scanAccounts`, given what decoding the key file's JSON
yields for its address. -/
def readAccount (contents : String → Option Address) (path : String) : Option Account :=
  match contents path with
  | none => none
  | some addr => if addr = 0 then none else some ⟨addr, ⟨KeyStoreScheme, path⟩⟩

/-- Add the account of a key file, if it has one. -/
def addFile (contents : String → Option Address) (ac : accountCache) (path : String) :
    accountCache :=
  match readAccount contents path with
  | some a => ac.add a
  | none => ac

/-- `scanAccounts` over the created, deleted and updated paths the file
cache reports; an update is a delete and a read. -/
def scanAccounts (ac : accountCache) (creates deletes updates : List String)
    (contents : String → Option Address) : accountCache :=
  let ac := creates.foldl (addFile contents) ac
  let ac := deletes.foldl deleteByFile ac
  updates.foldl (fun ac path => addFile contents (ac.deleteByFile path) path) ac

/-- **Two accounts of one URL.** Adding an account whose URL the cache holds
under another address puts both in the list, which is then not strictly
sorted by URL; and `find` with a path and no address refuses a path that no
account has, even when the cache holds one account. -/
theorem add_keeps_two_accounts_of_one_URL :
    let ac := (newAccountCache "/k").add ⟨1, ⟨KeyStoreScheme, "/k/a"⟩⟩;
    (ac.add ⟨2, ⟨KeyStoreScheme, "/k/a"⟩⟩).all =
        [⟨2, ⟨KeyStoreScheme, "/k/a"⟩⟩, ⟨1, ⟨KeyStoreScheme, "/k/a"⟩⟩] ∧
      ac.all.length = 1 ∧
      ac.find (fun d p => d ++ "/" ++ p) ⟨0, ⟨KeyStoreScheme, "/k/b"⟩⟩ = .error .ErrNoMatch := by
  have hsep : ("/k/b").contains Separator = true := by
    show "/k/b".contains '/' = true
    simp
  refine ⟨by decide, by decide, ?_⟩
  simp [find, hsep, add, newAccountCache]

end accountCache

/-! ## The URL order -/

/-- The order `URL.Cmp` compares by: scheme, then path. -/
def URL.key (u : URL) : Lex (String × String) := toLex (u.Scheme, u.Path)

theorem strCompare_neg_iff {a b : String} : strCompare a b < 0 ↔ a < b := by
  unfold strCompare
  split_ifs with hlt heq
  · simp [hlt]
  · simp [heq]
  · simp [hlt]

theorem URL.Cmp_neg_iff {u v : URL} : u.Cmp v < 0 ↔ u.key < v.key := by
  unfold URL.Cmp URL.key
  rw [Prod.Lex.toLex_lt_toLex]
  split_ifs with h
  · simp [strCompare_neg_iff, h]
  · simp [strCompare_neg_iff, h]

theorem URL.Cmp_nonneg_iff {u v : URL} : 0 ≤ u.Cmp v ↔ v.key ≤ u.key := by
  rw [← not_lt, URL.Cmp_neg_iff, not_lt]

theorem URL.key_injective : Function.Injective URL.key := by
  rintro ⟨s, p⟩ ⟨s', p'⟩ h
  simpa [URL.key] using h

/-- URLs of one scheme are in the order of their paths. -/
theorem URL.key_lt_iff_of_scheme {u v : URL} (h : u.Scheme = v.Scheme) :
    u.key < v.key ↔ u.Path < v.Path := by
  simp [URL.key, Prod.Lex.toLex_lt_toLex, h]

namespace accountCache

open SortSearch

variable {ac : accountCache} {a b : Account}

/-! ## The searches of `add` and `deleteByFile` -/

/-- `add` searches for the new URL in the URL order. -/
theorem add_index (ac : accountCache) (a : Account) :
    (ac.all.findIdx fun b => decide (b.URL.Cmp a.URL ≥ 0)) =
      lowerBound (fun b : Account => b.URL.key) ac.all a.URL.key := by
  simp only [lowerBound, ge_iff_le, URL.Cmp_nonneg_iff]

/-- `deleteByFile` searches for the path in the order of paths. -/
theorem deleteByFile_index (ac : accountCache) (path : String) :
    (ac.all.findIdx fun a => decide (a.URL.Path ≥ path)) =
      lowerBound (fun a : Account => a.URL.Path) ac.all path := rfl

/-- Adding an account the sorted list holds changes nothing. -/
theorem add_of_mem (hs : StrictlySorted (fun b : Account => b.URL.key) ac.all) (ha : a ∈ ac.all) :
    ac.add a = ac := by
  simp only [add, add_index, getElem?_lowerBound hs ha, if_true]

/-- Adding an account the list does not hold is the ordered insertion, and
the account joins the list of its address. -/
theorem add_of_not_mem (ha : a ∉ ac.all) :
    ac.add a =
      { ac with
        all := ac.all.orderedInsert (fun x y => x.URL.key ≤ y.URL.key) a
        byAddr := ac.byAddr.insert a.Address ((ac.byAddr.lookup a.Address).getD [] ++ [a]) } := by
  have hne : ac.all[lowerBound (fun b : Account => b.URL.key) ac.all a.URL.key]? ≠ some a :=
    fun h => ha (List.mem_of_getElem? h)
  simp only [add, add_index, if_neg hne]
  rw [insertIdx_lowerBound]

/-- `deleteByFile` of the path of an account of a list sorted by path
deletes that account. -/
theorem deleteByFile_of_mem (hs : StrictlySorted (fun a : Account => a.URL.Path) ac.all)
    (hb : b ∈ ac.all) : ac.deleteByFile b.URL.Path = ac.delete b := by
  simp only [deleteByFile, deleteByFile_index, getElem?_lowerBound hs hb, if_true,
    eraseIdx_lowerBound hs hb]
  rfl

/-- `deleteByFile` of a path no account has changes nothing. -/
theorem deleteByFile_of_forall_ne {path : String} (h : ∀ b ∈ ac.all, b.URL.Path ≠ path) :
    ac.deleteByFile path = ac := by
  simp only [deleteByFile]
  split
  · next removed hget => rw [if_neg (h removed (List.mem_of_getElem? hget))]
  · rfl

/-- The list `dropByAddr` leaves for an address: the removed account's
list with it erased, and every other list as it was. -/
theorem lookup_dropByAddr (m : GoMap Address (List Account)) (removed : Account) (addr : Address) :
    ((dropByAddr m removed).lookup addr).getD [] =
      if addr = removed.Address then ((m.lookup removed.Address).getD []).erase removed
      else (m.lookup addr).getD [] := by
  unfold dropByAddr removeAccount
  dsimp only
  by_cases haddr : addr = removed.Address
  · subst haddr
    rw [if_pos rfl]
    split_ifs with hlen
    · rw [AList.lookup_erase, List.eq_nil_of_length_eq_zero hlen]
      rfl
    · rw [AList.lookup_insert]
      rfl
  · rw [if_neg haddr]
    split_ifs
    · rw [AList.lookup_erase_ne haddr]
    · rw [AList.lookup_insert_ne haddr]

/-- `dropByAddr` leaves no empty list behind. -/
theorem dropByAddr_nonempty {m : GoMap Address (List Account)} (removed : Account)
    (hm : ∀ addr l, m.lookup addr = some l → l ≠ []) :
    ∀ addr l, (dropByAddr m removed).lookup addr = some l → l ≠ [] := by
  intro addr l hl
  unfold dropByAddr at hl
  dsimp only at hl
  split_ifs at hl with hlen
  · by_cases haddr : addr = removed.Address
    · rw [haddr, AList.lookup_erase] at hl
      cases hl
    · rw [AList.lookup_erase_ne haddr] at hl
      exact hm addr l hl
  · by_cases haddr : addr = removed.Address
    · rw [haddr, AList.lookup_insert] at hl
      cases hl
      exact fun h => hlen (by rw [h]; rfl)
    · rw [AList.lookup_insert_ne haddr] at hl
      exact hm addr l hl

/-! ## The invariant -/

/-- **The cache is consistent.** `all` is strictly sorted by URL, so no URL is
there twice; every URL is a key file's; and `byAddr` holds, for every
address, the accounts of `all` of that address, with no empty list. -/
structure Inv (ac : accountCache) : Prop where
  sorted : StrictlySorted (fun a : Account => a.URL.key) ac.all
  scheme : ∀ a ∈ ac.all, a.URL.Scheme = KeyStoreScheme
  byAddr : ∀ addr, ((ac.byAddr.lookup addr).getD []).Perm (ac.all.filter fun a => a.Address = addr)
  nonempty : ∀ addr l, ac.byAddr.lookup addr = some l → l ≠ []

theorem Inv.newAccountCache (keydir : String) : Inv (newAccountCache keydir) where
  sorted := List.Pairwise.nil
  scheme := fun _ h => nomatch h
  byAddr := fun _ => List.Perm.nil
  nonempty := fun _ _ h => nomatch h

/-- Two accounts of the cache with one URL are the same. -/
theorem Inv.eq_of_URL_eq (hi : Inv ac) (ha : a ∈ ac.all) (hb : b ∈ ac.all) (h : a.URL = b.URL) :
    a = b :=
  hi.sorted.eq_of_key_eq ha hb (congrArg URL.key h)

theorem Inv.nodup (hi : Inv ac) : ac.all.Nodup :=
  hi.sorted.imp fun {a b} hlt heq => by
    subst heq
    exact lt_irrefl _ hlt

/-- All URLs have one scheme, so the list is sorted by path too. -/
theorem Inv.pathSorted (hi : Inv ac) : StrictlySorted (fun a : Account => a.URL.Path) ac.all := by
  refine List.Pairwise.imp_of_mem (fun {a b} ha hb hlt => ?_) hi.sorted
  have hs : a.URL.Scheme = b.URL.Scheme := by rw [hi.scheme a ha, hi.scheme b hb]
  exact (URL.key_lt_iff_of_scheme hs).1 hlt

/-- Two accounts of the cache with one path are the same. -/
theorem Inv.eq_of_path_eq (hi : Inv ac) (ha : a ∈ ac.all) (hb : b ∈ ac.all)
    (h : a.URL.Path = b.URL.Path) : a = b :=
  hi.pathSorted.eq_of_key_eq ha hb h

/-- **`add` keeps the invariant** for an account of a key file whose URL no
other cached account has. -/
theorem Inv.add (hi : Inv ac) (hs : a.URL.Scheme = KeyStoreScheme)
    (hfresh : ∀ b ∈ ac.all, b.URL = a.URL → b = a) : Inv (ac.add a) := by
  by_cases ha : a ∈ ac.all
  · rwa [add_of_mem hi.sorted ha]
  rw [add_of_not_mem ha]
  have hkey : ∀ b ∈ ac.all, b.URL.key ≠ a.URL.key := fun b hb h =>
    ha (hfresh b hb (URL.key_injective h) ▸ hb)
  have hperm := List.perm_orderedInsert (fun x y : Account => x.URL.key ≤ y.URL.key) a ac.all
  refine ⟨hi.sorted.orderedInsert hkey, fun b hb => ?_, fun addr => ?_, fun addr l hl => ?_⟩
  · rcases (List.mem_orderedInsert _).1 hb with rfl | hb
    · exact hs
    · exact hi.scheme b hb
  · -- the new account joins the list of its own address only
    have hfilter := hperm.filter fun b : Account => decide (b.Address = addr)
    by_cases haddr : a.Address = addr
    · subst haddr
      rw [AList.lookup_insert, Option.getD_some]
      refine ((List.perm_append_singleton _ _).trans ((hi.byAddr _).cons a)).trans ?_
      simpa using hfilter.symm
    · rw [AList.lookup_insert_ne (Ne.symm haddr)]
      refine (hi.byAddr addr).trans ?_
      simpa [haddr] using hfilter.symm
  · by_cases haddr : addr = a.Address
    · rw [haddr, AList.lookup_insert] at hl
      cases hl
      simp
    · rw [AList.lookup_insert_ne haddr] at hl
      exact hi.nonempty addr l hl

/-- **`delete` keeps the invariant**, whatever account it is given. -/
theorem Inv.delete (hi : Inv ac) (b : Account) : Inv (ac.delete b) := by
  refine ⟨hi.sorted.sublist List.erase_sublist, fun a ha => hi.scheme a (List.mem_of_mem_erase ha),
    fun addr => ?_, dropByAddr_nonempty b hi.nonempty⟩
  show ((dropByAddr ac.byAddr b).lookup addr).getD [] |>.Perm ((ac.all.erase b).filter _)
  rw [lookup_dropByAddr, ← List.erase_filter]
  split_ifs with haddr
  · subst haddr
    exact (hi.byAddr _).erase b
  · -- an account of another address is not in this address's list
    have hb : b ∉ ac.all.filter fun a => a.Address = addr := by simp [Ne.symm haddr]
    rw [List.erase_of_not_mem hb]
    exact hi.byAddr addr

/-- **`deleteByFile` keeps the invariant.** -/
theorem Inv.deleteByFile (hi : Inv ac) (path : String) : Inv (ac.deleteByFile path) := by
  by_cases h : ∃ b ∈ ac.all, b.URL.Path = path
  · obtain ⟨b, hb, rfl⟩ := h
    rw [deleteByFile_of_mem hi.pathSorted hb]
    exact hi.delete b
  · push Not at h
    rwa [deleteByFile_of_forall_ne h]

/-- After `deleteByFile`, no account has the path. -/
theorem Inv.deleteByFile_clears (hi : Inv ac) (path : String) :
    ∀ b ∈ (ac.deleteByFile path).all, b.URL.Path ≠ path := by
  by_cases h : ∃ b ∈ ac.all, b.URL.Path = path
  · obtain ⟨b, hb, rfl⟩ := h
    rw [deleteByFile_of_mem hi.pathSorted hb]
    intro c hc hpath
    obtain ⟨hcb, hc⟩ := hi.nodup.mem_erase_iff.1 hc
    exact hcb (hi.eq_of_path_eq hc hb hpath)
  · push Not at h
    rwa [deleteByFile_of_forall_ne h]

/-! ## Key files and scans -/

/-- An account read from a key file has that file's URL. -/
theorem readAccount_URL {contents : String → Option Address} {path : String} {a : Account}
    (h : readAccount contents path = some a) : a.URL = ⟨KeyStoreScheme, path⟩ := by
  unfold readAccount at h
  split at h
  · cases h
  · split_ifs at h
    cases h
    rfl

/-- Under the invariant, the accounts after `add` are the added one and those
before. -/
theorem Inv.mem_add (hi : Inv ac) (hb : b ∈ (ac.add a).all) : b = a ∨ b ∈ ac.all := by
  by_cases ha : a ∈ ac.all
  · rw [add_of_mem hi.sorted ha] at hb
    exact .inr hb
  · rw [add_of_not_mem ha] at hb
    exact (List.mem_orderedInsert _).1 hb

/-- Reading a key file adds only an account of its path. -/
theorem Inv.mem_addFile {contents : String → Option Address} {path : String} (hi : Inv ac)
    (hb : b ∈ (accountCache.addFile contents ac path).all) : b ∈ ac.all ∨ b.URL.Path = path := by
  unfold accountCache.addFile at hb
  split at hb
  · next a hread =>
    rcases hi.mem_add hb with rfl | hb
    · exact .inr (by rw [readAccount_URL hread])
    · exact .inl hb
  · exact .inl hb

/-- **Reading a key file keeps the invariant** when no cached account has its
path. -/
theorem Inv.addFile {contents : String → Option Address} {path : String} (hi : Inv ac)
    (hfree : ∀ b ∈ ac.all, b.URL.Path ≠ path) : Inv (accountCache.addFile contents ac path) := by
  unfold accountCache.addFile
  split
  · next a hread =>
    refine hi.add (by rw [readAccount_URL hread]) fun b hb hURL => absurd ?_ (hfree b hb)
    rw [hURL, readAccount_URL hread]
  · exact hi

/-- A fold of calls that each keep the invariant keeps it. -/
theorem Inv.foldl {f : accountCache → String → accountCache} (hf : ∀ ac p, Inv ac → Inv (f ac p))
    (paths : List String) (hi : Inv ac) : Inv (paths.foldl f ac) := by
  induction paths generalizing ac with
  | nil => exact hi
  | cons p ps ih => exact ih (hf ac p hi)

/-- The created paths, read one by one, keep the invariant when they are
distinct and none is cached. -/
theorem Inv.foldl_addFile (contents : String → Option Address) (paths : List String)
    (hi : Inv ac) (hnd : paths.Nodup) (hfree : ∀ p ∈ paths, ∀ b ∈ ac.all, b.URL.Path ≠ p) :
    Inv (paths.foldl (accountCache.addFile contents) ac) := by
  induction paths generalizing ac with
  | nil => exact hi
  | cons p ps ih =>
    obtain ⟨hp, hnd⟩ := List.nodup_cons.1 hnd
    refine ih (hi.addFile (hfree p List.mem_cons_self)) hnd fun q hq b hb => ?_
    -- the only new account has path `p`, which is none of the later paths
    rcases hi.mem_addFile hb with hb | hpath
    · exact hfree q (List.mem_cons_of_mem _ hq) b hb
    · rw [hpath]
      exact fun h => hp (h ▸ hq)

/-- **A scan keeps the invariant** when the created paths are distinct and
none is cached; a rewritten file is deleted before it is read again. -/
theorem Inv.scanAccounts {creates deletes updates : List String}
    {contents : String → Option Address} (hi : Inv ac) (hnd : creates.Nodup)
    (hfree : ∀ p ∈ creates, ∀ b ∈ ac.all, b.URL.Path ≠ p) :
    Inv (ac.scanAccounts creates deletes updates contents) := by
  have h1 := hi.foldl_addFile contents creates hnd hfree
  have h2 := Inv.foldl (fun ac p hi => hi.deleteByFile p) deletes h1
  exact Inv.foldl (fun ac p hi => (hi.deleteByFile p).addFile (hi.deleteByFile_clears p)) updates h2

/-! ## Runs -/

/-- The calls that change the cache. -/
inductive Call
  | add (a : Account)
  | delete (a : Account)
  | deleteByFile (path : String)
  | scanAccounts (creates deletes updates : List String) (contents : String → Option Address)

/-- The cache after a call. -/
def Call.apply (ac : accountCache) : Call → accountCache
  | .add a => ac.add a
  | .delete a => ac.delete a
  | .deleteByFile path => ac.deleteByFile path
  | .scanAccounts creates deletes updates contents =>
    ac.scanAccounts creates deletes updates contents

/-- The calls the keystore makes: an added account is that of a new key
file, whose URL no other cached account has, and a scan reports each created
path once and no path the cache holds. -/
def Call.Legal (ac : accountCache) : Call → Prop
  | .add a => a.URL.Scheme = KeyStoreScheme ∧ ∀ b ∈ ac.all, b.URL = a.URL → b = a
  | .delete _ => True
  | .deleteByFile _ => True
  | .scanAccounts creates _ _ _ => creates.Nodup ∧ ∀ p ∈ creates, ∀ b ∈ ac.all, b.URL.Path ≠ p

/-- The caches a run of legal calls reaches from a new one. -/
inductive Reach (keydir : String) : accountCache → Prop
  | init : Reach keydir (newAccountCache keydir)
  | call {ac : accountCache} (c : Call) : Reach keydir ac → c.Legal ac → Reach keydir (c.apply ac)

/-- **Every legal call keeps the invariant.** -/
theorem Inv.call (hi : Inv ac) (c : Call) (hl : c.Legal ac) : Inv (c.apply ac) := by
  cases c with
  | add a => exact hi.add hl.1 hl.2
  | delete a => exact hi.delete a
  | deleteByFile path => exact hi.deleteByFile path
  | scanAccounts creates deletes updates contents => exact hi.scanAccounts hl.1 hl.2

/-- **Every reachable cache is consistent.** -/
theorem Reach.inv {keydir : String} (hr : Reach keydir ac) : Inv ac := by
  induction hr with
  | init => exact Inv.newAccountCache keydir
  | call c _ hl ih => exact ih.call c hl

/-! ## Scans against the key files -/

/-- The accounts of the key files `files`: the account of each file whose
contents decode to a non-zero address. -/
def fileView (files : List String) (contents : String → Option Address) (path : String) :
    Option Account :=
  if path ∈ files then readAccount contents path else none

/-- The cache holds exactly the accounts of a view of the key files. -/
def Mirrors (ac : accountCache) (view : String → Option Account) : Prop :=
  ∀ a, a ∈ ac.all ↔ view a.URL.Path = some a

/-- What `fileCache.scan` reports when the key directory goes from the files
`old`, read with `c0`, to the files `new`, read with `c1`: the paths created
and deleted, each once, and among the paths kept those modified, which
include every file whose account changed. -/
structure Reports (old new : List String) (c0 c1 : String → Option Address)
    (creates deletes updates : List String) : Prop where
  created : ∀ p, p ∈ creates ↔ p ∈ new ∧ p ∉ old
  created_nodup : creates.Nodup
  deleted : ∀ p, p ∈ deletes ↔ p ∈ old ∧ p ∉ new
  modified : ∀ p ∈ updates, p ∈ old ∧ p ∈ new
  rewritten : ∀ p ∈ old, p ∈ new → readAccount c0 p ≠ readAccount c1 p → p ∈ updates

variable {v : String → Option Account} {path : String}

/-- A path the view has no account for has none in the cache. -/
theorem Mirrors.free (hm : Mirrors ac v) (hv : v path = none) : ∀ b ∈ ac.all, b.URL.Path ≠ path := by
  intro b hb hpath
  have h := (hm b).1 hb
  rw [hpath, hv] at h
  cases h

/-- **Reading a key file the view has no account for** updates the view at
its path. -/
theorem Mirrors.addFile {contents : String → Option Address} (hm : Mirrors ac v) (hv : v path = none) :
    Mirrors (accountCache.addFile contents ac path) (Function.update v path (readAccount contents path)) := by
  have hfree := hm.free hv
  unfold accountCache.addFile
  split
  · next a hread =>
    have hpath : a.URL.Path = path := by rw [readAccount_URL hread]
    rw [add_of_not_mem fun ha => hfree a ha hpath]
    intro x
    show x ∈ ac.all.orderedInsert _ a ↔ _
    rw [List.mem_orderedInsert]
    by_cases hx : x.URL.Path = path
    · -- at the file's path: the read account, and no cached one
      rw [hx, Function.update_self, hread, Option.some_inj]
      exact ⟨fun h => h.elim Eq.symm fun h => absurd hx (hfree x h), fun h => .inl h.symm⟩
    · rw [Function.update_of_ne hx, ← hm x]
      exact ⟨fun h => h.elim (fun h => absurd (h ▸ hpath) hx) id, .inr⟩
  · next hread =>
    intro x
    by_cases hx : x.URL.Path = path
    · rw [hx, Function.update_self, hread]
      exact ⟨fun h => (hfree x h hx).elim, fun h => nomatch h⟩
    · rw [Function.update_of_ne hx]
      exact hm x

/-- **`deleteByFile` clears the view at its path.** -/
theorem Mirrors.deleteByFile (hi : Inv ac) (hm : Mirrors ac v) (path : String) :
    Mirrors (ac.deleteByFile path) (Function.update v path none) := by
  by_cases h : ∃ b ∈ ac.all, b.URL.Path = path
  · obtain ⟨b, hb, rfl⟩ := h
    rw [deleteByFile_of_mem hi.pathSorted hb]
    intro x
    show x ∈ ac.all.erase b ↔ _
    rw [hi.nodup.mem_erase_iff]
    by_cases hx : x.URL.Path = b.URL.Path
    · rw [hx, Function.update_self]
      exact ⟨fun h => (h.1 (hi.eq_of_path_eq h.2 hb hx)).elim, fun h => nomatch h⟩
    · rw [Function.update_of_ne hx, ← hm x]
      exact ⟨And.right, fun h => ⟨fun hxb => hx (hxb ▸ rfl), h⟩⟩
  · push Not at h
    rw [deleteByFile_of_forall_ne h]
    intro x
    by_cases hx : x.URL.Path = path
    · rw [hx, Function.update_self]
      exact ⟨fun hmem => (h x hmem hx).elim, fun h => nomatch h⟩
    · rw [Function.update_of_ne hx]
      exact hm x

/-- The view after updates at the paths of a list, the last one kept. -/
theorem update_foldl_view (f : String → Option Account) (p : String) (ps : List String) :
    (fun q => if q ∈ ps then f q else Function.update v p (f p) q) =
      fun q => if q ∈ p :: ps then f q else v q := by
  funext q
  by_cases hq : q ∈ ps
  · simp [hq]
  · by_cases hqp : q = p
    · simp [hqp]
    · simp [hq, hqp]

/-- A fold of calls that each update the view at their path, by `f`, and
keep the invariant, updates it at every path of the fold. -/
theorem Mirrors.foldl (g : accountCache → String → accountCache) (f : String → Option Account)
    (hg : ∀ ac v p, Inv ac → Mirrors ac v → Inv (g ac p) ∧ Mirrors (g ac p) (Function.update v p (f p)))
    (paths : List String) (hi : Inv ac) (hm : Mirrors ac v) :
    Inv (paths.foldl g ac) ∧ Mirrors (paths.foldl g ac) fun q => if q ∈ paths then f q else v q := by
  induction paths generalizing ac v with
  | nil => exact ⟨hi, by simpa [Mirrors] using hm⟩
  | cons p ps ih =>
    obtain ⟨hi', hm'⟩ := hg ac v p hi hm
    rw [List.foldl_cons, ← update_foldl_view]
    exact ih hi' hm'

/-- The created paths, distinct and without an account in the view, are read
into the cache. -/
theorem Mirrors.foldl_addFile (contents : String → Option Address) (paths : List String)
    (hi : Inv ac) (hm : Mirrors ac v) (hnd : paths.Nodup) (hv : ∀ p ∈ paths, v p = none) :
    Mirrors (paths.foldl (accountCache.addFile contents) ac)
      fun q => if q ∈ paths then readAccount contents q else v q := by
  induction paths generalizing ac v with
  | nil => simpa [Mirrors] using hm
  | cons p ps ih =>
    obtain ⟨hp, hnd⟩ := List.nodup_cons.1 hnd
    have hvp := hv p List.mem_cons_self
    rw [List.foldl_cons, ← update_foldl_view]
    -- the later paths differ from `p`, so the view still has none for them
    refine ih (hi.addFile (hm.free hvp)) (hm.addFile hvp) hnd fun q hq => ?_
    rw [Function.update_of_ne fun h => hp (by rwa [h] at hq)]
    exact hv q (List.mem_cons_of_mem _ hq)

/-- What the three phases of a scan leave at each path is the new view of
the key files. -/
theorem Reports.view {old new : List String} {c0 c1 : String → Option Address}
    {creates deletes updates : List String} (hr : Reports old new c0 c1 creates deletes updates) :
    (fun q => if q ∈ updates then readAccount c1 q else
      if q ∈ deletes then none else
      if q ∈ creates then readAccount c1 q else fileView old c0 q) = fileView new c1 := by
  funext q
  by_cases hu : q ∈ updates
  · simp [hu, fileView, (hr.modified q hu).2]
  by_cases hnew : q ∈ new <;> by_cases hold : q ∈ old
  · -- kept, not reported modified: the account is unchanged
    have hsame : readAccount c0 q = readAccount c1 q := by
      by_contra hne
      exact hu (hr.rewritten q hold hnew hne)
    simp [hu, hr.deleted, hr.created, hnew, hold, fileView, hsame]
  · simp [hu, hr.deleted, hr.created, hnew, hold, fileView]
  · simp [hu, hr.deleted, hnew, hold, fileView]
  · simp [hu, hr.deleted, hr.created, hnew, hold, fileView]

/-- **A scan brings the cache to the key files.** From a cache that holds the
accounts of the files `old`, a scan reporting the change to the files `new`
leaves the accounts of `new`. -/
theorem Mirrors.scanAccounts {old new : List String} {c0 c1 : String → Option Address}
    {creates deletes updates : List String} (hi : Inv ac) (hm : Mirrors ac (fileView old c0))
    (hr : Reports old new c0 c1 creates deletes updates) :
    Mirrors (ac.scanAccounts creates deletes updates c1) (fileView new c1) := by
  -- a created path is not among the old files, so the cache has no account there
  have hnone : ∀ p ∈ creates, fileView old c0 p = none := fun p hp => by
    simp [fileView, ((hr.created p).1 hp).2]
  have h1 := hm.foldl_addFile c1 creates hi hr.created_nodup hnone
  have hi1 := hi.foldl_addFile c1 creates hr.created_nodup fun p hp => hm.free (hnone p hp)
  obtain ⟨hi2, h2⟩ := Mirrors.foldl accountCache.deleteByFile (fun _ => none)
    (fun ac v p hi hm => ⟨hi.deleteByFile p, hm.deleteByFile hi p⟩) deletes hi1 h1
  obtain ⟨-, h3⟩ := Mirrors.foldl
    (fun ac path => accountCache.addFile c1 (ac.deleteByFile path) path) (readAccount c1)
    (fun ac v p hi hm => by
      -- a rewritten file is cleared first, so reading it finds its path free
      have h : Mirrors (accountCache.addFile c1 (ac.deleteByFile p) p)
          (Function.update (Function.update v p none) p (readAccount c1 p)) :=
        (hm.deleteByFile hi p).addFile (Function.update_self p none v)
      rw [Function.update_idem] at h
      exact ⟨(hi.deleteByFile p).addFile (hi.deleteByFile_clears p), h⟩) updates hi2 h2
  rw [← hr.view]
  exact h3

/-- A reported scan of a cache that holds the accounts of the old files is a
legal call. -/
theorem Reports.legal {old new : List String} {c0 c1 : String → Option Address}
    {creates deletes updates : List String} (hm : Mirrors ac (fileView old c0))
    (hr : Reports old new c0 c1 creates deletes updates) :
    (Call.scanAccounts creates deletes updates c1).Legal ac :=
  ⟨hr.created_nodup, fun p hp => hm.free (by simp [fileView, ((hr.created p).1 hp).2])⟩

/-! ## Lookups -/

/-- The accounts `find` chooses among: those of the address, or all when no
address is given. -/
def candidates (ac : accountCache) (addr : Address) : List Account :=
  if addr ≠ 0 then ac.all.filter fun b => b.Address = addr else ac.all

/-- The URL `find` looks for: a bare file name is completed with the key
directory. -/
def wantedURL (join : String → String → String) (ac : accountCache) (u : URL) : URL :=
  if u.Path.contains Separator then u else { u with Path := join ac.keydir u.Path }

/-- The answer by the number of candidates: the one candidate, no match, or
the ambiguity, listing them. -/
def pickUnique (addr : Address) : List Account → Except FindError Account
  | [m] => .ok m
  | [] => .error .ErrNoMatch
  | cands => .error (.AmbiguousAddrError addr cands)

theorem mem_candidates {addr : Address} (hm : a ∈ candidates ac addr) : a ∈ ac.all := by
  unfold candidates at hm
  split_ifs at hm
  · exact List.mem_of_mem_filter hm
  · exact hm

theorem Inv.candidates_sorted (hi : Inv ac) (addr : Address) :
    StrictlySorted (fun a : Account => a.URL.key) (candidates ac addr) := by
  unfold candidates
  split_ifs
  · exact hi.sorted.sublist List.filter_sublist
  · exact hi.sorted

/-- The list `find` starts from holds the candidates. -/
theorem Inv.matching_perm (hi : Inv ac) (addr : Address) :
    (if addr ≠ 0 then (ac.byAddr.lookup addr).getD [] else ac.all).Perm (candidates ac addr) := by
  unfold candidates
  split_ifs
  · exact hi.byAddr addr
  · exact List.Perm.refl _

/-- Among the candidates, the account of a URL is the one found. -/
theorem Inv.find?_candidates (hi : Inv ac) {addr : Address} {u : URL} (hm : a ∈ candidates ac addr)
    (hu : a.URL = u) : (candidates ac addr).find? (fun b => decide (b.URL = u)) = some a := by
  cases h : (candidates ac addr).find? fun b => decide (b.URL = u) with
  | none => exact absurd hu (by simpa using List.find?_eq_none.1 h a hm)
  | some b =>
    have hb : b.URL = u := by simpa using List.find?_some h
    rw [hi.eq_of_URL_eq (mem_candidates (List.mem_of_find?_eq_some h)) (mem_candidates hm)
      (hb.trans hu.symm)]

/-- The URLs of the candidates are distinct, so searching them in any order
finds the same account. -/
theorem Inv.find?_perm (hi : Inv ac) {addr : Address} {l : List Account}
    (hp : l.Perm (candidates ac addr)) (u : URL) :
    l.find? (fun b => decide (b.URL = u)) = (candidates ac addr).find? fun b => decide (b.URL = u) := by
  cases h : l.find? fun b => decide (b.URL = u) with
  | none =>
    refine (List.find?_eq_none.2 fun b hb => ?_).symm
    exact List.find?_eq_none.1 h b (hp.mem_iff.2 hb)
  | some b =>
    have hb : b.URL = u := by simpa using List.find?_some h
    rw [hi.find?_candidates (hp.mem_iff.1 (List.mem_of_find?_eq_some h)) hb]

/-- `sort.Sort(accountsByURL(...))` sorts by the URL order. -/
theorem sortByURL_pairwise (l : List Account) :
    (sortByURL l).Pairwise fun a b => a.URL.key ≤ b.URL.key := by
  have h := @List.pairwise_mergeSort Account (fun a b => decide ¬b.URL.Cmp a.URL < 0)
    (fun a b c hab hbc => by
      simp only [decide_eq_true_eq, URL.Cmp_neg_iff, not_lt] at hab hbc ⊢
      exact le_trans hab hbc)
    (fun a b => by
      simp only [URL.Cmp_neg_iff, not_lt, Bool.or_eq_true, decide_eq_true_eq]
      exact le_total _ _) l
  unfold accountCache.sortByURL
  simpa only [decide_eq_true_eq, URL.Cmp_neg_iff, not_lt] using h

/-- Sorting the list `find` starts from gives the candidates in their order. -/
theorem Inv.sortByURL (hi : Inv ac) {addr : Address} {l : List Account}
    (hp : l.Perm (candidates ac addr)) : accountCache.sortByURL l = candidates ac addr := by
  have hperm : (accountCache.sortByURL l).Perm (candidates ac addr) := (List.mergeSort_perm l _).trans hp
  exact ((hi.candidates_sorted addr).of_perm hperm (sortByURL_pairwise l)).eq_of_perm
    (hi.candidates_sorted addr) hperm

theorem pickUnique_of_two_le {addr : Address} {l : List Account} (h : 2 ≤ l.length) :
    pickUnique addr l = .error (.AmbiguousAddrError addr l) := by
  match l, h with
  | _ :: _ :: _, _ => rfl

/-- `find`'s answer by the number of the accounts it starts from is that of
the candidates. -/
theorem Inv.byCount (hi : Inv ac) {addr : Address} {l : List Account} :
    l.Perm (candidates ac addr) →
    (match l with
      | [m] => .ok m
      | [] => .error .ErrNoMatch
      | _ => .error (.AmbiguousAddrError addr (accountCache.sortByURL l)) : Except FindError Account) =
      pickUnique addr (candidates ac addr) := by
  intro hp
  rcases l with _ | ⟨m, _ | ⟨m', rest⟩⟩
  · rw [← hp.nil_eq]
    rfl
  · rw [List.perm_singleton.1 hp.symm]
    rfl
  · have hlen : 2 ≤ (candidates ac addr).length := by simp [← hp.length_eq]
    rw [pickUnique_of_two_le hlen, ← hi.sortByURL hp]

theorem find_URL_eq (join : String → String → String) (ac : accountCache) (a : Account) :
    (if a.URL.Path.contains Separator then a
      else { a with URL := { a.URL with Path := join ac.keydir a.URL.Path } }).URL =
      wantedURL join ac a.URL := by
  unfold wantedURL
  split_ifs <;> rfl

theorem find_Address_eq (join : String → String → String) (ac : accountCache) (a : Account) :
    (if a.URL.Path.contains Separator then a
      else { a with URL := { a.URL with Path := join ac.keydir a.URL.Path } }).Address = a.Address := by
  split_ifs <;> rfl

/-- **`find` on a consistent cache**, over the candidates in URL order. -/
theorem Inv.find (hi : Inv ac) (join : String → String → String) (a : Account) :
    ac.find join a =
      if a.URL.Path ≠ "" then
        match (candidates ac a.Address).find? (fun m => decide (m.URL = wantedURL join ac a.URL)) with
        | some m => .ok m
        | none => if a.Address = 0 then .error .ErrNoMatch else pickUnique a.Address (candidates ac a.Address)
      else pickUnique a.Address (candidates ac a.Address) := by
  have hp := hi.matching_perm a.Address
  unfold accountCache.find
  dsimp only
  rw [find_URL_eq, find_Address_eq, hi.find?_perm hp, hi.byCount hp]

/-- With a path, `find` returns the candidate of the wanted URL. -/
theorem Inv.find_of_URL (hi : Inv ac) {join : String → String → String} {m : Account}
    (hpath : a.URL.Path ≠ "") (hm : m ∈ candidates ac a.Address) (hu : m.URL = wantedURL join ac a.URL) :
    ac.find join a = .ok m := by
  rw [hi.find, if_pos hpath, hi.find?_candidates hm hu]

/-- With a path and no address, `find` refuses a URL no account has, whatever
the number of candidates. -/
theorem Inv.find_no_match (hi : Inv ac) {join : String → String → String} (hpath : a.URL.Path ≠ "")
    (haddr : a.Address = 0) (hno : ∀ m ∈ candidates ac a.Address, m.URL ≠ wantedURL join ac a.URL) :
    ac.find join a = .error .ErrNoMatch := by
  have hnone : (candidates ac a.Address).find? (fun m => decide (m.URL = wantedURL join ac a.URL)) = none :=
    List.find?_eq_none.2 fun m hm => by simpa using hno m hm
  rw [hi.find, if_pos hpath, hnone, if_pos haddr]

/-- Without a path, or with an address and a URL no candidate has, `find`
answers by the number of candidates. -/
theorem Inv.find_by_count (hi : Inv ac) {join : String → String → String}
    (h : a.URL.Path = "" ∨ a.Address ≠ 0 ∧ ∀ m ∈ candidates ac a.Address, m.URL ≠ wantedURL join ac a.URL) :
    ac.find join a = pickUnique a.Address (candidates ac a.Address) := by
  rw [hi.find]
  rcases h with hpath | ⟨haddr, hno⟩
  · rw [if_neg (not_not.2 hpath)]
  · have hnone : (candidates ac a.Address).find? (fun m => decide (m.URL = wantedURL join ac a.URL)) = none :=
      List.find?_eq_none.2 fun m hm => by simpa using hno m hm
    split_ifs
    · rw [hnone]
    · rfl

/-- **The account cache stays consistent.** In every cache that a run of
legal calls reaches, `all` is strictly sorted by URL, with URLs of key files,
and `byAddr` groups it by address with no empty list; a scan that reports
the change of the key directory from files whose accounts the cache holds
leaves the accounts of the new files; and `find` returns the candidate of
the wanted URL, refuses an unmatched path when no address is given, and
otherwise answers by the number of candidates, listing them in URL order. -/
theorem account_cache_consistent {keydir : String} (hr : Reach keydir ac) :
    Inv ac ∧
      (∀ (old new : List String) (c0 c1 : String → Option Address)
        (creates deletes updates : List String),
        Mirrors ac (fileView old c0) → Reports old new c0 c1 creates deletes updates →
        Mirrors (ac.scanAccounts creates deletes updates c1) (fileView new c1)) ∧
      (∀ addr, StrictlySorted (fun a : Account => a.URL.key) (candidates ac addr)) ∧
      (∀ join a m, a.URL.Path ≠ "" → m ∈ candidates ac a.Address →
        m.URL = wantedURL join ac a.URL → ac.find join a = .ok m) ∧
      (∀ join a, a.URL.Path ≠ "" → a.Address = 0 →
        (∀ m ∈ candidates ac a.Address, m.URL ≠ wantedURL join ac a.URL) →
        ac.find join a = .error .ErrNoMatch) ∧
      (∀ join a, (a.URL.Path = "" ∨
          a.Address ≠ 0 ∧ ∀ m ∈ candidates ac a.Address, m.URL ≠ wantedURL join ac a.URL) →
        ac.find join a = pickUnique a.Address (candidates ac a.Address)) := by
  have hi := hr.inv
  refine ⟨hi, fun old new c0 c1 creates deletes updates hm hrep => hm.scanAccounts hi hrep,
    hi.candidates_sorted, ?_, ?_, ?_⟩
  · intro join a m hpath hm hu
    exact hi.find_of_URL hpath hm hu
  · intro join a hpath haddr hno
    exact hi.find_no_match hpath haddr hno
  · intro join a h
    exact hi.find_by_count h

/-- Three key files added out of URL order, two of them of the address `1`. -/
def threeAccounts : accountCache :=
  (((newAccountCache "/k").add ⟨1, ⟨KeyStoreScheme, "/k/c"⟩⟩).add ⟨2, ⟨KeyStoreScheme, "/k/b"⟩⟩).add
    ⟨1, ⟨KeyStoreScheme, "/k/a"⟩⟩

/-- On the three files: the address `1` alone is ambiguous, and its two
accounts are listed in URL order; the bare file name `b` finds its account. -/
theorem account_cache_consistent_on_three_files :
    Reach "/k" threeAccounts ∧
      threeAccounts.find (fun d f => d ++ "/" ++ f) ⟨1, ⟨"", ""⟩⟩ =
        .error (.AmbiguousAddrError 1 [⟨1, ⟨KeyStoreScheme, "/k/a"⟩⟩, ⟨1, ⟨KeyStoreScheme, "/k/c"⟩⟩]) ∧
      threeAccounts.find (fun d f => d ++ "/" ++ f) ⟨0, ⟨KeyStoreScheme, "b"⟩⟩ =
        .ok ⟨2, ⟨KeyStoreScheme, "/k/b"⟩⟩ := by
  have r₀ : Reach "/k" (newAccountCache "/k") := .init
  have r₁ := Reach.call (.add ⟨1, ⟨KeyStoreScheme, "/k/c"⟩⟩) r₀ ⟨rfl, by decide⟩
  have r₂ := Reach.call (.add ⟨2, ⟨KeyStoreScheme, "/k/b"⟩⟩) r₁ ⟨rfl, by decide⟩
  have r₃ : Reach "/k" threeAccounts :=
    Reach.call (.add ⟨1, ⟨KeyStoreScheme, "/k/a"⟩⟩) r₂ ⟨rfl, by decide⟩
  -- the bare name is completed with the key directory
  have hwanted : wantedURL (fun d f => d ++ "/" ++ f) threeAccounts ⟨KeyStoreScheme, "b"⟩ =
      ⟨KeyStoreScheme, "/k/b"⟩ := by
    have hdir : threeAccounts.keydir = "/k" := rfl
    have hbare : "b".contains Separator = false := by
      unfold Separator
      simp
    simp [wantedURL, hdir, hbare]
  obtain ⟨-, -, -, hurl, -, hcount⟩ := account_cache_consistent r₃
  refine ⟨r₃, ?_, hurl _ _ _ (by decide) (by decide +kernel) hwanted.symm⟩
  -- no path: the answer goes by the number of candidates
  rw [hcount _ _ (.inl rfl)]
  decide +kernel

end accountCache

end Btp.Keystore
