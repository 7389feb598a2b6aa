import Mathlib
import Btp.Common.Types
import Btp.Lib.UndoLog

/-!
# The state database and its journal

`core/state/statedb.go`, `state_object.go` and `journal.go`: the live state
objects over the account trie, the mutators that log an undo entry in the
journal for each change they make, `Snapshot`, which remembers the length of
the journal, and `RevertToSnapshot`, which undoes the entries logged since.

The account and storage tries and the code store are finite maps that do not
change between commits: `trie` gives, for each address, its account record
with its code and storage. A state object caches what it reads from them (the
committed storage, the code); those caches always hold what the tries hold, so
an object here reads its committed storage and code directly. For the same
reason `getStateObject`, which in the code also caches a loaded object in
`stateObjects`, only reads. The dirtiness bookkeeping (`stateObjectsDirty`,
the journal's `dirties`, `dirtyCode`) is read by `Finalise`, `Commit` and
`Copy` only and is left out. `keccak` stands for `crypto.Keccak256`, which is
not part of this source tree.
-/

namespace Btp.State

/-- `state.Account`, without the storage root: the storage it commits to is
kept with the account in the trie. -/
structure Account where
  Nonce : Nat
  Balance : Int
  CodeHash : Hash

/-- An account of the trie, with its code and its committed storage. -/
structure TrieAccount where
  data : Account
  code : List UInt8
  storage : Hash → Hash

/-- `stateObject`: an account being modified. `origin` is its committed
storage, the storage trie at the account's root. -/
structure StateObject where
  address : Address
  data : Account
  code : List UInt8
  origin : Hash → Hash
  dirtyStorage : GoMap Hash Hash
  suicided : Bool

/-- `types.Log`, with the fields `AddLog` fills in. -/
structure Log where
  Address : Address
  Topics : List Hash
  Data : List UInt8
  TxHash : Hash
  BlockHash : Hash
  TxIndex : Nat
  Index : Nat

/-- The journal entries of `journal.go`. -/
inductive JournalEntry
  | createObjectChange (account : Address)
  | resetObjectChange (prev : StateObject)
  | suicideChange (account : Address) (prev : Bool) (prevbalance : Int)
  | balanceChange (account : Address) (prev : Int)
  | nonceChange (account : Address) (prev : Nat)
  | storageChange (account : Address) (key prevalue : Hash)
  | codeChange (account : Address) (prevcode : List UInt8) (prevhash : Hash)
  | refundChange (prev : Nat)
  | addLogChange (txhash : Hash)
  | addPreimageChange (hash : Hash)
  | touchChange (account : Address)

/-- `revision`. -/
structure Revision where
  id : Nat
  journalIndex : Nat

/-- `StateDB`: the fields the mutators, the accessors and the journal use. -/
structure StateDB where
  trie : Address → Option TrieAccount
  stateObjects : GoMap Address StateObject
  refund : Nat
  thash : Hash
  bhash : Hash
  txIndex : Nat
  logs : GoMap Hash (List Log)
  logSize : Nat
  preimages : GoMap Hash (List UInt8)
  journal : List JournalEntry
  validRevisions : List Revision
  nextRevisionId : Nat

/-- `state.New`: an empty state database over a trie. -/
def New (trie : Address → Option TrieAccount) : StateDB :=
  { trie, stateObjects := ∅, refund := 0, thash := 0, bhash := 0, txIndex := 0, logs := ∅,
    logSize := 0, preimages := ∅, journal := [], validRevisions := [], nextRevisionId := 0 }

section
variable (keccak : List UInt8 → Hash)

/-- `emptyCodeHash`: the hash of the empty code. -/
def emptyCodeHash : Hash := keccak []

namespace StateObject

/-- `newObject` for an account loaded from the trie. -/
def load (address : Address) (account : TrieAccount) : StateObject :=
  ⟨address, account.data, account.code, account.storage, ∅, false⟩

/-- `newObject` with an empty `Account`: no storage, and the empty code. -/
def newObject (address : Address) : StateObject :=
  ⟨address, ⟨0, 0, emptyCodeHash keccak⟩, [], fun _ => 0, ∅, false⟩

/-- `stateObject.empty`, in the sense of EIP-161. -/
def empty (s : StateObject) : Bool :=
  s.data.Nonce == 0 && s.data.Balance == 0 && s.data.CodeHash == emptyCodeHash keccak

end StateObject

end

namespace StateObject

/-- `stateObject.GetState`: the dirty value, else the committed one. -/
def GetState (s : StateObject) (key : Hash) : Hash := (s.dirtyStorage.lookup key).getD (s.origin key)

/-- `stateObject.setBalance`. -/
def setBalance (s : StateObject) (amount : Int) : StateObject :=
  { s with data := { s.data with Balance := amount } }

/-- `stateObject.setNonce`. -/
def setNonce (s : StateObject) (nonce : Nat) : StateObject :=
  { s with data := { s.data with Nonce := nonce } }

/-- `stateObject.setCode`. -/
def setCode (s : StateObject) (codeHash : Hash) (code : List UInt8) : StateObject :=
  { s with code, data := { s.data with CodeHash := codeHash } }

/-- `stateObject.setState`. -/
def setState (s : StateObject) (key value : Hash) : StateObject :=
  { s with dirtyStorage := s.dirtyStorage.insert key value }

end StateObject

namespace StateDB

/-- `StateDB.getStateObject`: the live object, else the one in the trie. -/
def getStateObject (s : StateDB) (addr : Address) : Option StateObject :=
  match s.stateObjects.lookup addr with
  | some obj => some obj
  | none => (s.trie addr).map (StateObject.load addr)

/-- `StateDB.setStateObject`. -/
def setStateObject (s : StateDB) (object : StateObject) : StateDB :=
  { s with stateObjects := s.stateObjects.insert object.address object }

/-- `journal.append`. -/
def append (s : StateDB) (entry : JournalEntry) : StateDB :=
  { s with journal := s.journal ++ [entry] }

end StateDB

/-! ## Undoing an entry -/

namespace JournalEntry

/-- The `revert` of each entry; `none` where the code dereferences the nil
object of a missing account, or slices the logs of a transaction without
logs. -/
def revert (s : StateDB) : JournalEntry → Option StateDB
  | createObjectChange account => some { s with stateObjects := s.stateObjects.erase account }
  | resetObjectChange prev => some (s.setStateObject prev)
  | suicideChange account prev prevbalance =>
    match s.getStateObject account with
    | some obj => some (s.setStateObject ({ obj with suicided := prev }.setBalance prevbalance))
    | none => some s
  | balanceChange account prev =>
    (s.getStateObject account).map fun obj => s.setStateObject (obj.setBalance prev)
  | nonceChange account prev =>
    (s.getStateObject account).map fun obj => s.setStateObject (obj.setNonce prev)
  | codeChange account prevcode prevhash =>
    (s.getStateObject account).map fun obj => s.setStateObject (obj.setCode prevhash prevcode)
  | storageChange account key prevalue =>
    (s.getStateObject account).map fun obj => s.setStateObject (obj.setState key prevalue)
  | refundChange prev => some { s with refund := prev }
  | addLogChange txhash =>
    let logs := (s.logs.lookup txhash).getD []
    if logs.length = 1 then some { s with logs := s.logs.erase txhash, logSize := s.logSize - 1 }
    -- `logs[:len(logs)-1]` on no logs is out of range
    else if logs.length = 0 then none
    else some { s with logs := s.logs.insert txhash logs.dropLast, logSize := s.logSize - 1 }
  | addPreimageChange hash => some { s with preimages := s.preimages.erase hash }
  | touchChange _ => some s

end JournalEntry

namespace StateDB

/-- Undo the entries of `es`, the last one first. -/
def revertEntries (es : List JournalEntry) (s : StateDB) : Option StateDB :=
  UndoLog.undoAll (fun e s => e.revert s) es s

/-- `journal.revert`: undo the entries from `snapshot` on and drop them. -/
def revertJournal (s : StateDB) (snapshot : Nat) : Option StateDB :=
  (revertEntries (s.journal.drop snapshot) s).map fun s' => { s' with journal := s.journal.take snapshot }

/-! ## Mutators -/

section
variable (keccak : List UInt8 → Hash)

/-- `StateDB.createObject`: a new empty object, logged as a creation or, over
an existing account, as a reset to it. Returns the new object and the old
one. -/
def createObject (s : StateDB) (addr : Address) : StateObject × Option StateObject × StateDB :=
  let prev := s.getStateObject addr
  let newobj := StateObject.newObject keccak addr
  let s := match prev with
    | none => s.append (.createObjectChange addr)
    | some prev => s.append (.resetObjectChange prev)
  (newobj, prev, s.setStateObject newobj)

/-- `StateDB.GetOrNewStateObject`. -/
def GetOrNewStateObject (s : StateDB) (addr : Address) : StateObject × StateDB :=
  match s.getStateObject addr with
  | some obj => (obj, s)
  | none =>
    let r := s.createObject keccak addr
    (r.1, r.2.2)

end

end StateDB

namespace StateObject

/-- `stateObject.SetBalance`. -/
def SetBalance (obj : StateObject) (s : StateDB) (amount : Int) : StateDB :=
  (s.append (.balanceChange obj.address obj.data.Balance)).setStateObject (obj.setBalance amount)

/-- `stateObject.SetNonce`. -/
def SetNonce (obj : StateObject) (s : StateDB) (nonce : Nat) : StateDB :=
  (s.append (.nonceChange obj.address obj.data.Nonce)).setStateObject (obj.setNonce nonce)

/-- `stateObject.SetCode`. -/
def SetCode (obj : StateObject) (s : StateDB) (codeHash : Hash) (code : List UInt8) : StateDB :=
  (s.append (.codeChange obj.address obj.code obj.data.CodeHash)).setStateObject
    (obj.setCode codeHash code)

/-- `stateObject.SetState`: a write of the value already there is not logged. -/
def SetState (obj : StateObject) (s : StateDB) (key value : Hash) : StateDB :=
  let prev := obj.GetState key
  if prev = value then s
  else (s.append (.storageChange obj.address key prev)).setStateObject (obj.setState key value)

/-- `stateObject.touch`. -/
def touch (obj : StateObject) (s : StateDB) : StateDB := s.append (.touchChange obj.address)

section
variable (keccak : List UInt8 → Hash)

/-- `stateObject.AddBalance`: adding zero only touches an empty object. -/
def AddBalance (obj : StateObject) (s : StateDB) (amount : Int) : StateDB :=
  if amount = 0 then
    if obj.empty keccak then obj.touch s else s
  else obj.SetBalance s (obj.data.Balance + amount)

end

/-- `stateObject.SubBalance`. -/
def SubBalance (obj : StateObject) (s : StateDB) (amount : Int) : StateDB :=
  if amount = 0 then s else obj.SetBalance s (obj.data.Balance - amount)

end StateObject

namespace StateDB

section
variable (keccak : List UInt8 → Hash)

/-- `StateDB.AddBalance`. -/
def AddBalance (s : StateDB) (addr : Address) (amount : Int) : StateDB :=
  let r := s.GetOrNewStateObject keccak addr
  r.1.AddBalance keccak r.2 amount

/-- `StateDB.SubBalance`. -/
def SubBalance (s : StateDB) (addr : Address) (amount : Int) : StateDB :=
  let r := s.GetOrNewStateObject keccak addr
  r.1.SubBalance r.2 amount

/-- `StateDB.SetBalance`. -/
def SetBalance (s : StateDB) (addr : Address) (amount : Int) : StateDB :=
  let r := s.GetOrNewStateObject keccak addr
  r.1.SetBalance r.2 amount

/-- `StateDB.SetNonce`. -/
def SetNonce (s : StateDB) (addr : Address) (nonce : Nat) : StateDB :=
  let r := s.GetOrNewStateObject keccak addr
  r.1.SetNonce r.2 nonce

/-- `StateDB.SetCode`. -/
def SetCode (s : StateDB) (addr : Address) (code : List UInt8) : StateDB :=
  let r := s.GetOrNewStateObject keccak addr
  r.1.SetCode r.2 (keccak code) code

/-- `StateDB.SetState`. -/
def SetState (s : StateDB) (addr : Address) (key value : Hash) : StateDB :=
  let r := s.GetOrNewStateObject keccak addr
  r.1.SetState r.2 key value

/-- `StateDB.CreateAccount`: a new object that keeps the balance of the
account it replaces. -/
def CreateAccount (s : StateDB) (addr : Address) : StateDB :=
  let r := s.createObject keccak addr
  match r.2.1 with
  | some prev => r.2.2.setStateObject (r.1.setBalance prev.data.Balance)
  | none => r.2.2

end

/-- `StateDB.Suicide`: mark the account and clear its balance. Returns
whether the account exists. -/
def Suicide (s : StateDB) (addr : Address) : Bool × StateDB :=
  match s.getStateObject addr with
  | none => (false, s)
  | some obj =>
    let s := s.append (.suicideChange addr obj.suicided obj.data.Balance)
    (true, s.setStateObject ({ obj with suicided := true }.setBalance 0))

/-- `StateDB.AddRefund`, in `uint64`. -/
def AddRefund (s : StateDB) (gas : Nat) : StateDB :=
  let s := s.append (.refundChange s.refund)
  { s with refund := (s.refund + gas) % 2 ^ 64 }

/-- `StateDB.SubRefund`: panics below zero, after logging. -/
def SubRefund (s : StateDB) (gas : Nat) : Option StateDB :=
  let s := s.append (.refundChange s.refund)
  if gas > s.refund then none else some { s with refund := s.refund - gas }

/-- `StateDB.AddLog`. -/
def AddLog (s : StateDB) (log : Log) : StateDB :=
  let s := s.append (.addLogChange s.thash)
  let log := { log with TxHash := s.thash, BlockHash := s.bhash, TxIndex := s.txIndex, Index := s.logSize }
  { s with
    logs := s.logs.insert s.thash ((s.logs.lookup s.thash).getD [] ++ [log])
    logSize := s.logSize + 1 }

/-- `StateDB.AddPreimage`: only a new preimage is recorded and logged. -/
def AddPreimage (s : StateDB) (hash : Hash) (preimage : List UInt8) : StateDB :=
  if (s.preimages.lookup hash).isSome then s
  else { s.append (.addPreimageChange hash) with preimages := s.preimages.insert hash preimage }

/-- `StateDB.Snapshot`: the new revision's id. -/
def Snapshot (s : StateDB) : Nat × StateDB :=
  let id := s.nextRevisionId
  (id, { s with
    nextRevisionId := s.nextRevisionId + 1
    validRevisions := s.validRevisions ++ [⟨id, s.journal.length⟩] })

/-- `StateDB.RevertToSnapshot`. `sort.Search` finds the first revision whose
id is at least `revid` (the ids are increasing); a missing id panics. -/
def RevertToSnapshot (s : StateDB) (revid : Nat) : Option StateDB :=
  let idx := s.validRevisions.findIdx fun r => decide (r.id ≥ revid)
  match s.validRevisions[idx]? with
  | some r =>
    if r.id ≠ revid then none
    else (s.revertJournal r.journalIndex).map fun s => { s with validRevisions := s.validRevisions.take idx }
  | none => none

end StateDB

/-! ## Accessors -/

namespace StateDB

/-- `StateDB.Exist`: suicided accounts exist too. -/
def Exist (s : StateDB) (addr : Address) : Bool := (s.getStateObject addr).isSome

/-- `StateDB.Empty`: missing, or empty in the sense of EIP-161. -/
def Empty (keccak : List UInt8 → Hash) (s : StateDB) (addr : Address) : Bool :=
  match s.getStateObject addr with
  | none => true
  | some obj => obj.empty keccak

/-- `StateDB.GetBalance`: zero for a missing account. -/
def GetBalance (s : StateDB) (addr : Address) : Int :=
  ((s.getStateObject addr).map (·.data.Balance)).getD 0

/-- `StateDB.GetNonce`. -/
def GetNonce (s : StateDB) (addr : Address) : Nat :=
  ((s.getStateObject addr).map (·.data.Nonce)).getD 0

/-- `StateDB.GetCode`: `nil` for a missing account. -/
def GetCode (s : StateDB) (addr : Address) : List UInt8 :=
  ((s.getStateObject addr).map (·.code)).getD []

/-- `StateDB.GetCodeSize`; the code of an object is always loaded here. -/
def GetCodeSize (s : StateDB) (addr : Address) : Nat :=
  ((s.getStateObject addr).map (·.code.length)).getD 0

/-- `StateDB.GetCodeHash`: the zero hash for a missing account. -/
def GetCodeHash (s : StateDB) (addr : Address) : Hash :=
  ((s.getStateObject addr).map (·.data.CodeHash)).getD 0

/-- `StateDB.GetState`. -/
def GetState (s : StateDB) (addr : Address) (hash : Hash) : Hash :=
  ((s.getStateObject addr).map (·.GetState hash)).getD 0

/-- `StateDB.HasSuicided`. -/
def HasSuicided (s : StateDB) (addr : Address) : Bool :=
  ((s.getStateObject addr).map (·.suicided)).getD false

/-- `StateDB.GetRefund`. -/
def GetRefund (s : StateDB) : Nat := s.refund

/-- `StateDB.GetLogs`: a missing key of the map reads as no logs. -/
def GetLogs (s : StateDB) (hash : Hash) : List Log := (s.logs.lookup hash).getD []

/-- `StateDB.Preimages`, read as the map it returns. -/
def Preimages (s : StateDB) (hash : Hash) : Option (List UInt8) := s.preimages.lookup hash

end StateDB

/-! ## Runs -/

/-- The operations on the state database: the mutators, `Snapshot` and
`RevertToSnapshot`. A touch is an `AddBalance` of zero. -/
inductive StateOp
  | SetBalance (addr : Address) (amount : Int)
  | AddBalance (addr : Address) (amount : Int)
  | SubBalance (addr : Address) (amount : Int)
  | SetNonce (addr : Address) (nonce : Nat)
  | SetCode (addr : Address) (code : List UInt8)
  | SetState (addr : Address) (key value : Hash)
  | CreateAccount (addr : Address)
  | Suicide (addr : Address)
  | AddRefund (gas : Nat)
  | SubRefund (gas : Nat)
  | AddLog (log : Log)
  | AddPreimage (hash : Hash) (preimage : List UInt8)
  | Snapshot
  | RevertToSnapshot (revid : Nat)

namespace StateDB

section
variable (keccak : List UInt8 → Hash)

/-- One operation; `none` where the code panics. -/
def step (s : StateDB) : StateOp → Option StateDB
  | .SetBalance addr amount => some (s.SetBalance keccak addr amount)
  | .AddBalance addr amount => some (s.AddBalance keccak addr amount)
  | .SubBalance addr amount => some (s.SubBalance keccak addr amount)
  | .SetNonce addr nonce => some (s.SetNonce keccak addr nonce)
  | .SetCode addr code => some (s.SetCode keccak addr code)
  | .SetState addr key value => some (s.SetState keccak addr key value)
  | .CreateAccount addr => some (s.CreateAccount keccak addr)
  | .Suicide addr => some (s.Suicide addr).2
  | .AddRefund gas => some (s.AddRefund gas)
  | .SubRefund gas => s.SubRefund gas
  | .AddLog log => some (s.AddLog log)
  | .AddPreimage hash preimage => some (s.AddPreimage hash preimage)
  | .Snapshot => some s.Snapshot.2
  | .RevertToSnapshot revid => s.RevertToSnapshot revid

/-- A sequence of operations; `none` if one of them panics. -/
def run (s : StateDB) : List StateOp → Option StateDB
  | [] => some s
  | op :: ops => (s.step keccak op).bind fun s => run s ops

end

end StateDB

end Btp.State
