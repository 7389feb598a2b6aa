import Mathlib
import Btp.Core.State.StateDB

/-!
# Undoing a mutation

What the accessors of a state database read: for each address the view of
its object (`ObjectView`), the refund counter, the logs of each transaction and
the preimages. Two states with the same trie that agree on all of these are
`Equiv`; no accessor and no journal entry tells them apart, since every
`revert` reads a state only through what it views
(`revert_respects`).

Each mutator logs entries whose reverts, last first, lead back to a state
`Equiv` to the one it started from (`step_extends`): the run is
`UndoLog.Logged`.
-/

namespace Btp.State

/-- What the accessors read of an object, and the address it is stored
under. -/
structure ObjectView where
  address : Address
  Nonce : Nat
  Balance : Int
  CodeHash : Hash
  Code : List UInt8
  Storage : Hash → Hash
  suicided : Bool

namespace StateObject

/-- The view of an object. -/
def view (o : StateObject) : ObjectView :=
  ⟨o.address, o.data.Nonce, o.data.Balance, o.data.CodeHash, o.code, o.GetState, o.suicided⟩

@[simp] theorem view_address (o : StateObject) : o.view.address = o.address := rfl

@[simp] theorem view_setBalance (o : StateObject) (amount : Int) :
    (o.setBalance amount).view = { o.view with Balance := amount } := rfl

@[simp] theorem view_setNonce (o : StateObject) (nonce : Nat) :
    (o.setNonce nonce).view = { o.view with Nonce := nonce } := rfl

@[simp] theorem view_setCode (o : StateObject) (codeHash : Hash) (code : List UInt8) :
    (o.setCode codeHash code).view = { o.view with CodeHash := codeHash, Code := code } := rfl

@[simp] theorem view_suicided (o : StateObject) (p : Bool) :
    ({ o with suicided := p } : StateObject).view = { o.view with suicided := p } := rfl

theorem GetState_setState (o : StateObject) (key value : Hash) :
    (o.setState key value).GetState = Function.update o.GetState key value := by
  funext k
  by_cases hk : k = key
  · subst hk
    simp [GetState, setState, AList.lookup_insert]
  · simp [GetState, setState, AList.lookup_insert_ne hk, hk]

@[simp] theorem view_setState (o : StateObject) (key value : Hash) :
    (o.setState key value).view = { o.view with Storage := Function.update o.view.Storage key value } := by
  simp only [view, GetState_setState]
  rfl

end StateObject

namespace StateDB

/-- The view of the object at `a`, if the account exists. -/
def objectView (s : StateDB) (a : Address) : Option ObjectView :=
  (s.getStateObject a).map StateObject.view

@[simp] theorem getStateObject_append (s : StateDB) (e : JournalEntry) :
    (s.append e).getStateObject = s.getStateObject := rfl

@[simp] theorem objectView_append (s : StateDB) (e : JournalEntry) :
    (s.append e).objectView = s.objectView := rfl

theorem getStateObject_setStateObject (s : StateDB) (o : StateObject) (a : Address) :
    (s.setStateObject o).getStateObject a = if a = o.address then some o else s.getStateObject a := by
  by_cases ha : a = o.address
  · subst ha
    simp [getStateObject, setStateObject, AList.lookup_insert]
  · simp [getStateObject, setStateObject, AList.lookup_insert_ne ha, ha]

theorem objectView_setStateObject (s : StateDB) (o : StateObject) (a : Address) :
    (s.setStateObject o).objectView a = if a = o.address then some o.view else s.objectView a := by
  unfold objectView
  rw [getStateObject_setStateObject]
  split <;> rfl

theorem getStateObject_erase (s : StateDB) (a b : Address) :
    ({ s with stateObjects := s.stateObjects.erase a } : StateDB).getStateObject b =
      if b = a then (s.trie a).map (StateObject.load a) else s.getStateObject b := by
  by_cases hb : b = a
  · subst hb
    simp [getStateObject, AList.lookup_erase]
  · simp [getStateObject, AList.lookup_erase_ne hb, hb]

/-- A missing account is neither live nor in the trie. -/
theorem getStateObject_eq_none {s : StateDB} {a : Address} (h : s.getStateObject a = none) :
    s.stateObjects.lookup a = none ∧ s.trie a = none := by
  unfold getStateObject at h
  split at h
  · cases h
  · rename_i hl
    exact ⟨hl, Option.map_eq_none_iff.mp h⟩

/-- Every live object is stored under its own address. -/
def WellAddressed (s : StateDB) : Prop :=
  ∀ a o, s.stateObjects.lookup a = some o → o.address = a

theorem WellAddressed.getStateObject {s : StateDB} (h : s.WellAddressed) {a : Address}
    {o : StateObject} (hget : s.getStateObject a = some o) : o.address = a := by
  unfold StateDB.getStateObject at hget
  split at hget
  · rename_i hl
    cases hget
    exact h a o hl
  · obtain ⟨acc, -, rfl⟩ := Option.map_eq_some_iff.mp hget
    rfl

theorem WellAddressed.setStateObject {s : StateDB} (h : s.WellAddressed) (o : StateObject) :
    (s.setStateObject o).WellAddressed := by
  intro a o' hl
  by_cases ha : a = o.address
  · subst ha
    simp only [StateDB.setStateObject, AList.lookup_insert, Option.some.injEq] at hl
    rw [← hl]
  · simp only [StateDB.setStateObject, AList.lookup_insert_ne ha] at hl
    exact h a o' hl

theorem WellAddressed.erase {s : StateDB} (h : s.WellAddressed) (a : Address) :
    ({ s with stateObjects := s.stateObjects.erase a } : StateDB).WellAddressed := by
  intro b o hl
  by_cases hb : b = a
  · subst hb
    simp [AList.lookup_erase] at hl
  · exact h b o (by simpa [AList.lookup_erase_ne hb] using hl)

/-! ## States no accessor tells apart -/

/-- Two states with the same trie whose accessors agree. -/
structure Equiv (s t : StateDB) : Prop where
  trie : s.trie = t.trie
  objectView : ∀ a, s.objectView a = t.objectView a
  refund : s.refund = t.refund
  logs : ∀ h, (s.logs.lookup h).getD [] = (t.logs.lookup h).getD []
  logSize : s.logSize = t.logSize
  preimages : ∀ h, s.preimages.lookup h = t.preimages.lookup h

theorem equiv_equivalence : Equivalence Equiv where
  refl _ := ⟨rfl, fun _ => rfl, rfl, fun _ => rfl, rfl, fun _ => rfl⟩
  symm h := ⟨h.trie.symm, fun a => (h.objectView a).symm, h.refund.symm, fun k => (h.logs k).symm,
    h.logSize.symm, fun k => (h.preimages k).symm⟩
  trans h₁ h₂ := ⟨h₁.trie.trans h₂.trie, fun a => (h₁.objectView a).trans (h₂.objectView a),
    h₁.refund.trans h₂.refund, fun k => (h₁.logs k).trans (h₂.logs k),
    h₁.logSize.trans h₂.logSize, fun k => (h₁.preimages k).trans (h₂.preimages k)⟩

theorem Equiv.refl (s : StateDB) : s.Equiv s := equiv_equivalence.refl s

theorem equiv_append (s : StateDB) (e : JournalEntry) : (s.append e).Equiv s :=
  ⟨rfl, fun _ => rfl, rfl, fun _ => rfl, rfl, fun _ => rfl⟩

/-- The journal and the revisions are bookkeeping that no accessor reads. -/
theorem equiv_bookkeeping (s : StateDB) (journal : List JournalEntry)
    (validRevisions : List Revision) (nextRevisionId : Nat) :
    ({ s with journal, validRevisions, nextRevisionId } : StateDB).Equiv s :=
  ⟨rfl, fun _ => rfl, rfl, fun _ => rfl, rfl, fun _ => rfl⟩

/-- Storing objects with equal views keeps states equivalent. -/
theorem Equiv.setStateObject {s t : StateDB} (h : s.Equiv t) {o o' : StateObject}
    (hv : o.view = o'.view) : (s.setStateObject o).Equiv (t.setStateObject o') := by
  have haddr : o.address = o'.address := by rw [← o.view_address, hv, o'.view_address]
  refine ⟨h.trie, fun a => ?_, h.refund, h.logs, h.logSize, h.preimages⟩
  rw [StateDB.objectView_setStateObject, StateDB.objectView_setStateObject, haddr, hv]
  split
  · rfl
  · exact h.objectView a

/-- Storing, over an account, an object with the view it had restores the
state. -/
theorem setStateObject_equiv_self {s : StateDB} {o obj : StateObject}
    (hobj : s.getStateObject o.address = some obj) (hv : o.view = obj.view) :
    (s.setStateObject o).Equiv s := by
  refine ⟨rfl, fun a => ?_, rfl, fun _ => rfl, rfl, fun _ => rfl⟩
  rw [objectView_setStateObject]
  split
  · rename_i ha
    subst ha
    simp [objectView, hobj, hv]
  · rfl

theorem setStateObject_setStateObject_equiv (s : StateDB) {o o' : StateObject}
    (haddr : o.address = o'.address) :
    ((s.setStateObject o).setStateObject o').Equiv (s.setStateObject o') := by
  refine ⟨rfl, fun a => ?_, rfl, fun _ => rfl, rfl, fun _ => rfl⟩
  simp only [objectView_setStateObject, ← haddr]
  split <;> rfl

/-- An update of an object is undone by an update that gives back its view. -/
theorem restore_equiv {s : StateDB} {obj o o' : StateObject} (e : JournalEntry)
    (hobj : s.getStateObject obj.address = some obj) (ho : o.address = obj.address)
    (ho' : o'.address = obj.address) (hv : o'.view = obj.view) :
    (((s.append e).setStateObject o).setStateObject o').Equiv s := by
  have h₁ := setStateObject_setStateObject_equiv (s.append e) (ho.trans ho'.symm)
  have h₂ : ((s.append e).setStateObject o').Equiv (s.append e) :=
    setStateObject_equiv_self (s := s.append e) (by rwa [ho']) hv
  exact equiv_equivalence.trans h₁ (equiv_equivalence.trans h₂ (equiv_append s e))

/-- The object an equivalent state holds at the same address. -/
theorem Equiv.getStateObject {s t : StateDB} (h : s.Equiv t) {a : Address} {obj : StateObject}
    (hs : s.getStateObject a = some obj) :
    ∃ obj', t.getStateObject a = some obj' ∧ obj'.view = obj.view := by
  have hv := h.objectView a
  simp only [StateDB.objectView, hs, Option.map_some] at hv
  obtain ⟨obj', ht, hview⟩ := Option.map_eq_some_iff.mp hv.symm
  exact ⟨obj', ht, hview⟩

/-- An update whose view depends only on the view of the object it updates,
made at the same address of equivalent states, keeps them equivalent. -/
theorem Equiv.update {s t : StateDB} (h : s.Equiv t) {a : Address} {obj : StateObject}
    (hs : s.getStateObject a = some obj) (f : StateObject → StateObject)
    (hf : ∀ o o', o'.view = o.view → (f o').view = (f o).view) :
    ∃ obj', t.getStateObject a = some obj' ∧
      (s.setStateObject (f obj)).Equiv (t.setStateObject (f obj')) := by
  obtain ⟨obj', ht, hview⟩ := h.getStateObject hs
  exact ⟨obj', ht, h.setStateObject (hf obj obj' hview).symm⟩

/-- The entries' `revert`s, as the undo of an undo log. -/
def undo (e : JournalEntry) (s : StateDB) : Option StateDB := e.revert s

theorem revertEntries_eq_undoAll (es : List JournalEntry) (s : StateDB) :
    revertEntries es s = UndoLog.undoAll undo es s := rfl

/-- A run that logged `es`, undone by the journal up to `Equiv`. -/
abbrev Logged (s : StateDB) (es : List JournalEntry) (s' : StateDB) : Prop :=
  UndoLog.Logged undo Equiv s es s'

end StateDB

/-! ## Every revert respects equivalence -/

open StateDB

/-- The updates a revert makes to an object only read its view. -/
theorem revert_respects : UndoLog.Respects StateDB.undo StateDB.Equiv := by
  intro e s t s' hst h
  unfold StateDB.undo at h ⊢
  cases e with
  | createObjectChange account =>
    simp only [JournalEntry.revert, Option.some.injEq] at h ⊢
    subst h
    refine ⟨_, rfl, hst.trie, fun a => ?_, hst.refund, hst.logs, hst.logSize, hst.preimages⟩
    simp only [objectView, getStateObject_erase]
    split
    · rw [hst.trie]
    · exact hst.objectView a
  | resetObjectChange prev =>
    simp only [JournalEntry.revert, Option.some.injEq] at h ⊢
    subst h
    exact ⟨_, rfl, hst.setStateObject rfl⟩
  | suicideChange account prev prevbalance =>
    simp only [JournalEntry.revert] at h ⊢
    cases hs : s.getStateObject account with
    | none =>
      rw [hs, Option.some.injEq] at h
      subst h
      have hv := hst.objectView account
      simp only [objectView, hs, Option.map_none] at hv
      rw [Option.map_eq_none_iff.mp hv.symm]
      exact ⟨t, rfl, hst⟩
    | some obj =>
      rw [hs, Option.some.injEq] at h
      subst h
      obtain ⟨obj', ht, hequiv⟩ := hst.update hs (fun o => { o with suicided := prev }.setBalance prevbalance)
        (fun o o' hv => by simp [hv])
      exact ⟨_, by rw [ht], hequiv⟩
  | balanceChange account prev =>
    simp only [JournalEntry.revert] at h ⊢
    obtain ⟨obj, hs, rfl⟩ := Option.map_eq_some_iff.mp h
    obtain ⟨obj', ht, hequiv⟩ := hst.update hs (·.setBalance prev) (fun o o' hv => by simp [hv])
    exact ⟨_, by rw [ht, Option.map_some], hequiv⟩
  | nonceChange account prev =>
    simp only [JournalEntry.revert] at h ⊢
    obtain ⟨obj, hs, rfl⟩ := Option.map_eq_some_iff.mp h
    obtain ⟨obj', ht, hequiv⟩ := hst.update hs (·.setNonce prev) (fun o o' hv => by simp [hv])
    exact ⟨_, by rw [ht, Option.map_some], hequiv⟩
  | storageChange account key prevalue =>
    simp only [JournalEntry.revert] at h ⊢
    obtain ⟨obj, hs, rfl⟩ := Option.map_eq_some_iff.mp h
    obtain ⟨obj', ht, hequiv⟩ := hst.update hs (·.setState key prevalue) (fun o o' hv => by simp [hv])
    exact ⟨_, by rw [ht, Option.map_some], hequiv⟩
  | codeChange account prevcode prevhash =>
    simp only [JournalEntry.revert] at h ⊢
    obtain ⟨obj, hs, rfl⟩ := Option.map_eq_some_iff.mp h
    obtain ⟨obj', ht, hequiv⟩ := hst.update hs (·.setCode prevhash prevcode)
      (fun o o' hv => by simp [hv])
    exact ⟨_, by rw [ht, Option.map_some], hequiv⟩
  | refundChange prev =>
    simp only [JournalEntry.revert, Option.some.injEq] at h ⊢
    subst h
    exact ⟨_, rfl, hst.trie, hst.objectView, rfl, hst.logs, hst.logSize, hst.preimages⟩
  | addLogChange txhash =>
    simp only [JournalEntry.revert] at h ⊢
    rw [← hst.logs txhash, ← hst.logSize]
    split_ifs at h ⊢ with h₁ h₀
    · rw [Option.some.injEq] at h
      subst h
      refine ⟨_, rfl, hst.trie, hst.objectView, hst.refund, fun k => ?_, rfl, hst.preimages⟩
      by_cases hk : k = txhash
      · subst hk
        simp [AList.lookup_erase]
      · simpa [AList.lookup_erase_ne hk] using hst.logs k
    · rw [Option.some.injEq] at h
      subst h
      refine ⟨_, rfl, hst.trie, hst.objectView, hst.refund, fun k => ?_, rfl, hst.preimages⟩
      by_cases hk : k = txhash
      · subst hk
        simp [AList.lookup_insert]
      · simpa [AList.lookup_insert_ne hk] using hst.logs k
  | addPreimageChange hash =>
    simp only [JournalEntry.revert, Option.some.injEq] at h ⊢
    subst h
    refine ⟨_, rfl, hst.trie, hst.objectView, hst.refund, hst.logs, hst.logSize, fun k => ?_⟩
    by_cases hk : k = hash
    · subst hk
      simp [AList.lookup_erase]
    · simpa [AList.lookup_erase_ne hk] using hst.preimages k
  | touchChange account =>
    simp only [JournalEntry.revert, Option.some.injEq] at h ⊢
    subst h
    exact ⟨t, rfl, hst⟩


namespace StateObject

@[simp] theorem setBalance_address (o : StateObject) (amount : Int) :
    (o.setBalance amount).address = o.address := rfl

@[simp] theorem setNonce_address (o : StateObject) (nonce : Nat) :
    (o.setNonce nonce).address = o.address := rfl

@[simp] theorem setCode_address (o : StateObject) (codeHash : Hash) (code : List UInt8) :
    (o.setCode codeHash code).address = o.address := rfl

@[simp] theorem setState_address (o : StateObject) (key value : Hash) :
    (o.setState key value).address = o.address := rfl

end StateObject

namespace StateDB

/-! ## Mutations extend the journal by what undoes them -/

/-- A step from `s` to `s'` through the journal: the objects stay well
addressed, the revisions are untouched, and the journal grows by entries whose
reverts, last first, lead back to `s`. -/
structure Extends (s s' : StateDB) : Prop where
  wellAddressed : s'.WellAddressed
  validRevisions : s'.validRevisions = s.validRevisions
  nextRevisionId : s'.nextRevisionId = s.nextRevisionId
  logged : ∃ es, s'.journal = s.journal ++ es ∧ Logged s es s'

theorem Extends.refl {s : StateDB} (hwa : s.WellAddressed) : Extends s s :=
  ⟨hwa, rfl, rfl, [], by simp, .nil (Equiv.refl s)⟩

theorem Extends.trans {s s' s'' : StateDB} (h₁ : Extends s s') (h₂ : Extends s' s'') :
    Extends s s'' := by
  obtain ⟨-, hr₁, hn₁, es, hj, hl⟩ := h₁
  obtain ⟨hwa, hr₂, hn₂, fs, hj', hl'⟩ := h₂
  exact ⟨hwa, hr₂.trans hr₁, hn₂.trans hn₁, es ++ fs, by rw [hj', hj, List.append_assoc],
    UndoLog.Logged.append revert_respects equiv_equivalence hl hl'⟩

/-- One logged entry whose revert leads back. -/
theorem Extends.single {s s' : StateDB} {e : JournalEntry} (hwa : s'.WellAddressed)
    (hr : s'.validRevisions = s.validRevisions) (hn : s'.nextRevisionId = s.nextRevisionId)
    (hj : s'.journal = s.journal ++ [e]) (hu : ∃ u, e.revert s' = some u ∧ u.Equiv s) :
    Extends s s' :=
  ⟨hwa, hr, hn, [e], hj, by simpa using UndoLog.Logged.snoc (UndoLog.Logged.nil (Equiv.refl s)) hu⟩

/-- An update of an existing object, logged by an entry whose revert stores
back an object with the old view. -/
theorem extends_update {s : StateDB} {obj : StateObject} (hwa : s.WellAddressed)
    (hobj : s.getStateObject obj.address = some obj) (e : JournalEntry) (o o' : StateObject)
    (ho : o.address = obj.address) (ho' : o'.address = obj.address) (hv : o'.view = obj.view)
    (hrev : e.revert ((s.append e).setStateObject o) =
      some (((s.append e).setStateObject o).setStateObject o')) :
    Extends s ((s.append e).setStateObject o) :=
  Extends.single (WellAddressed.setStateObject hwa o) rfl rfl rfl
    ⟨_, hrev, restore_equiv e hobj ho ho' hv⟩

section
variable (keccak : List UInt8 → Hash)

@[simp] theorem newObject_address (a : Address) : (StateObject.newObject keccak a).address = a := rfl

theorem createObject_extends {s : StateDB} (hwa : s.WellAddressed) (a : Address) :
    Extends s (s.createObject keccak a).2.2 ∧
      (s.createObject keccak a).2.2.getStateObject a = some (StateObject.newObject keccak a) := by
  unfold createObject
  cases hprev : s.getStateObject a with
  | none =>
    -- a creation: its revert drops the object again
    obtain ⟨hlive, htrie⟩ := getStateObject_eq_none hprev
    refine ⟨Extends.single (WellAddressed.setStateObject hwa _) rfl rfl rfl
      ⟨_, rfl, rfl, fun b => ?_, rfl, fun _ => rfl, rfl, fun _ => rfl⟩, ?_⟩
    · simp only [objectView, getStateObject_erase]
      split
      · rename_i hb
        subst hb
        simp only [hprev, Option.map_none]
        change Option.map _ (Option.map _ (s.trie b)) = none
        rw [htrie, Option.map_none, Option.map_none]
      · rename_i hb
        rw [getStateObject_setStateObject, newObject_address, if_neg hb, getStateObject_append]
    · simp [getStateObject_setStateObject]
  | some prev =>
    -- a reset: its revert stores the old object back
    have haddr := hwa.getStateObject hprev
    refine ⟨extends_update hwa (by rw [haddr, hprev]) _ _ prev (by simp [haddr]) rfl rfl rfl, ?_⟩
    simp [getStateObject_setStateObject]

theorem GetOrNewStateObject_extends {s : StateDB} (hwa : s.WellAddressed) (a : Address) :
    let r := s.GetOrNewStateObject keccak a
    Extends s r.2 ∧ r.2.getStateObject r.1.address = some r.1 := by
  unfold GetOrNewStateObject
  cases hget : s.getStateObject a with
  | some obj => exact ⟨Extends.refl hwa, by rw [hwa.getStateObject hget, hget]⟩
  | none => exact createObject_extends keccak hwa a

end

end StateDB

namespace StateObject

open StateDB

section
variable {s : StateDB} {obj : StateObject} (hwa : s.WellAddressed)
  (hobj : s.getStateObject obj.address = some obj)
include hwa hobj

theorem SetBalance_extends (amount : Int) : Extends s (obj.SetBalance s amount) :=
  extends_update hwa hobj _ _ ((obj.setBalance amount).setBalance obj.data.Balance) rfl rfl rfl
    (by simp [JournalEntry.revert, getStateObject_setStateObject])

theorem SetNonce_extends (nonce : Nat) : Extends s (obj.SetNonce s nonce) :=
  extends_update hwa hobj _ _ ((obj.setNonce nonce).setNonce obj.data.Nonce) rfl rfl rfl
    (by simp [JournalEntry.revert, getStateObject_setStateObject])

theorem SetCode_extends (codeHash : Hash) (code : List UInt8) :
    Extends s (obj.SetCode s codeHash code) :=
  extends_update hwa hobj _ _ ((obj.setCode codeHash code).setCode obj.data.CodeHash obj.code) rfl
    rfl rfl (by simp [JournalEntry.revert, getStateObject_setStateObject])

theorem SetState_extends (key value : Hash) : Extends s (obj.SetState s key value) := by
  dsimp only [SetState]
  split_ifs
  · exact Extends.refl hwa
  · -- the write is logged with the value it overwrote
    refine extends_update hwa hobj _ _ ((obj.setState key value).setState key (obj.GetState key))
      rfl rfl ?_ (by simp [JournalEntry.revert, getStateObject_setStateObject])
    have hrestore : Function.update obj.view.Storage key (obj.GetState key) = obj.view.Storage :=
      Function.update_eq_self key obj.view.Storage
    simp only [view_setState, Function.update_idem, hrestore]

omit hobj in
theorem touch_extends : Extends s (obj.touch s) :=
  Extends.single hwa rfl rfl rfl ⟨_, rfl, equiv_append s _⟩

theorem AddBalance_extends (keccak : List UInt8 → Hash) (amount : Int) :
    Extends s (obj.AddBalance keccak s amount) := by
  unfold AddBalance
  split_ifs
  · exact touch_extends hwa
  · exact Extends.refl hwa
  · exact SetBalance_extends hwa hobj _

theorem SubBalance_extends (amount : Int) : Extends s (obj.SubBalance s amount) := by
  unfold SubBalance
  split_ifs
  · exact Extends.refl hwa
  · exact SetBalance_extends hwa hobj _

end

end StateObject

namespace StateDB

section
variable (keccak : List UInt8 → Hash) {s : StateDB}

/-- The mutators that find or create the object and update it. -/
theorem extends_of_getOrNew (hwa : s.WellAddressed) (a : Address)
    {f : StateObject → StateDB → StateDB}
    (hf : ∀ {t obj}, t.WellAddressed → t.getStateObject obj.address = some obj →
      Extends t (f obj t)) :
    Extends s (f (s.GetOrNewStateObject keccak a).1 (s.GetOrNewStateObject keccak a).2) := by
  obtain ⟨h₁, h₂⟩ := GetOrNewStateObject_extends keccak hwa a
  exact h₁.trans (hf h₁.wellAddressed h₂)

/-- `CreateAccount` over an existing account sets the carried-over balance on
the new object without logging it: the reset already undoes it. -/
theorem CreateAccount_extends (hwa : s.WellAddressed) (a : Address) :
    Extends s (s.CreateAccount keccak a) := by
  dsimp only [CreateAccount]
  split
  · rename_i prev hprev
    change s.getStateObject a = some prev at hprev
    have haddr := hwa.getStateObject hprev
    have hs : (s.createObject keccak a).2.2 =
        (s.append (.resetObjectChange prev)).setStateObject (StateObject.newObject keccak a) := by
      simp [createObject, hprev]
    rw [hs]
    set n := StateObject.newObject keccak a
    set t := s.append (.resetObjectChange prev)
    refine Extends.single ((WellAddressed.setStateObject hwa n).setStateObject _) rfl rfl rfl
      ⟨_, rfl, ?_⟩
    have hn : n.address = prev.address := by simp [n, haddr]
    have h₁ : (((t.setStateObject n).setStateObject (n.setBalance prev.data.Balance)).setStateObject
        prev).Equiv ((t.setStateObject n).setStateObject prev) :=
      setStateObject_setStateObject_equiv _ hn
    exact equiv_equivalence.trans h₁ (restore_equiv _ (by rw [haddr, hprev]) hn rfl rfl)
  · exact (createObject_extends keccak hwa a).1

end

variable {s : StateDB} (hwa : s.WellAddressed)
include hwa

theorem Suicide_extends (a : Address) : Extends s (s.Suicide a).2 := by
  unfold Suicide
  cases hget : s.getStateObject a with
  | none => exact Extends.refl hwa
  | some obj =>
    obtain rfl := hwa.getStateObject hget
    exact extends_update hwa hget _ _
      ({ ({ obj with suicided := true }.setBalance 0) with suicided := obj.suicided }.setBalance
        obj.data.Balance) rfl rfl rfl
      (by simp [JournalEntry.revert, getStateObject_setStateObject])

/-- A change of the refund counter alone, undone by restoring it. -/
theorem extends_refund (refund : Nat) :
    Extends s ({ s.append (.refundChange s.refund) with refund } : StateDB) :=
  Extends.single hwa rfl rfl rfl ⟨_, rfl, rfl, fun _ => rfl, rfl, fun _ => rfl, rfl, fun _ => rfl⟩

theorem AddRefund_extends (gas : Nat) : Extends s (s.AddRefund gas) :=
  extends_refund hwa _

theorem SubRefund_extends {gas : Nat} {s' : StateDB} (h : s.SubRefund gas = some s') :
    Extends s s' := by
  dsimp only [SubRefund] at h
  split_ifs at h
  cases h
  exact extends_refund hwa _

theorem AddLog_extends (log : Log) : Extends s (s.AddLog log) := by
  refine Extends.single hwa rfl rfl rfl ?_
  simp only [AddLog, JournalEntry.revert, append, AList.lookup_insert, Option.getD_some,
    List.length_append, List.length_singleton, Nat.add_one_ne_zero, reduceIte]
  split_ifs with h₁
  · -- the first log of the transaction: its key is dropped again
    have hnil : (s.logs.lookup s.thash).getD [] = [] := List.eq_nil_of_length_eq_zero (by omega)
    refine ⟨_, rfl, rfl, fun _ => rfl, rfl, fun k => ?_, by simp, fun _ => rfl⟩
    by_cases hk : k = s.thash
    · subst hk
      simp [AList.lookup_erase, hnil]
    · simp [AList.lookup_erase_ne hk, AList.lookup_insert_ne hk]
  · refine ⟨_, rfl, rfl, fun _ => rfl, rfl, fun k => ?_, by simp, fun _ => rfl⟩
    by_cases hk : k = s.thash
    · subst hk
      simp [AList.lookup_insert]
    · simp [AList.lookup_insert_ne hk]

theorem AddPreimage_extends (hash : Hash) (preimage : List UInt8) :
    Extends s (s.AddPreimage hash preimage) := by
  unfold AddPreimage
  split_ifs with hknown
  · exact Extends.refl hwa
  · refine Extends.single hwa rfl rfl rfl
      ⟨_, rfl, rfl, fun _ => rfl, rfl, fun _ => rfl, rfl, fun k => ?_⟩
    by_cases hk : k = hash
    · subst hk
      rw [Option.not_isSome_iff_eq_none] at hknown
      simp [AList.lookup_erase, hknown]
    · simp [AList.lookup_erase_ne hk, AList.lookup_insert_ne hk]

end StateDB

end Btp.State
