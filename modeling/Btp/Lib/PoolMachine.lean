import Mathlib

/-!
# Frames that share a pool of objects

A machine of nested frames, each with a stack of pointers to mutable objects,
runs one operation at a time. An operation is a small program over registers:
it pops, peeks and pushes pointers, takes objects from a pool shared by all
frames (or allocates them), writes values into objects, puts objects back into
the pool, and may call into a new frame. Putting back past the pool's limit
drops the object instead.

`check` is an ownership discipline on the registers of a program: it reads
only objects it holds, writes none it does not, pushes only objects it owns,
and puts back only objects no stack holds, none twice. For a machine whose
programs all pass `check`:

* every reachable configuration keeps the pool free of duplicates and of any
  object a frame still uses (`Inv`, `run_inv`);
* a run that poisons every object put back (writes a fixed value into it) and
  checks the pool after each operation goes in lockstep with the plain run and
  shows the same values (`run_sim`).
-/

namespace PoolMachine

/-- A pointer to an object. -/
abbrev Ptr := Nat

/-- A register of an operation. Register `0` holds the frame's own value
object, which the operation borrows. -/
abbrev Reg := Fin 10

/-- Register numerals read this fact by name, so that no definition carries
its own copy of the proof. -/
instance Reg.neZero : NeZero (10 : Nat) := ⟨by decide⟩

/-- One pointer step of an operation. `F` names the value functions, `E` the
effects on the machine's state and `K` the kinds of call. -/
inductive Act (F E K : Type) where
  /-- `r := stack.pop()` -/
  | pop (r : Reg)
  /-- `r := stack.peek()`: the object stays on the stack. -/
  | peek (r : Reg)
  /-- `r := stack.data[len - n]`, for `n ≥ 1`. -/
  | back (r : Reg) (n : Nat)
  /-- `stack.push(r)` -/
  | push (r : Reg)
  /-- `r := pool.get()`: the object's value is whatever it held. -/
  | get (r : Reg)
  /-- `r := pool.getZero()` -/
  | getZero (r : Reg)
  /-- `r := new(big.Int)` -/
  | new (r : Reg)
  /-- Write into `r` the value of `f` at the values of `args`. -/
  | set (r : Reg) (f : F) (args : List Reg)
  /-- `r := s`, the object passing from `s` to `r`. -/
  | move (r s : Reg)
  /-- `pool.put(rs...)` -/
  | put (rs : List Reg)
  /-- `stack.swap(n)`: exchange the top with the `n`-th object from the top. -/
  | swap (n : Nat)
  /-- Change the machine's state from the values of `args`. -/
  | effect (e : E) (args : List Reg)
  /-- Call into a new frame, given the values of `args` and the new frame's
  value object: `r`'s object, or a new one. -/
  | call (k : K) (args : List Reg) (value : Option Reg)

/-- An operation: steps, two-way branches on a condition `C` of values, and
its end, without or with an error. -/
inductive Prog (F C E K : Type) where
  | done
  | fail
  | act (a : Act F E K) (p : Prog F C E K)
  | branch (c : C) (args : List Reg) (t e : Prog F C E K)

/-- The steps `as`, then `p`. -/
def Prog.seq {F C E K : Type} (as : List (Act F E K)) (p : Prog F C E K) : Prog F C E K :=
  as.foldr .act p

/-! ## The ownership check -/

/-- What a register holds, for the check. -/
inductive Status where
  /-- nothing the operation may use -/
  | free
  /-- an object off every stack and out of the pool, with a defined value -/
  | owned
  /-- an object taken from the pool, not yet written -/
  | dirty
  /-- an object on the frame's stack -/
  | stacked
  /-- the frame's value object -/
  | borrowed
  deriving DecidableEq, Repr

namespace Status

/-- The object's value may be read. -/
def readable : Status → Bool
  | owned | stacked | borrowed => true
  | _ => false

/-- The object's value may be written. -/
def writable : Status → Bool
  | owned | dirty | stacked => true
  | _ => false

/-- The object belongs to the operation alone: it may be put back. -/
def puttable : Status → Bool
  | owned | dirty => true
  | _ => false

/-- The register may take another object. -/
def assignable : Status → Bool
  | borrowed => false
  | _ => true

/-- The status after a write. -/
def written : Status → Status
  | dirty => owned
  | s => s

end Status

/-- Registers at the start of an operation: the frame's value in `0`. -/
def startEnv : Reg → Status := fun r => if r = 0 then .borrowed else .free

/-- Registers between operations. -/
def idleEnv : Reg → Status := fun _ => .free

namespace Act

variable {F E K : Type}

/-- The check of one step, given the registers' statuses and whether pops
are still allowed (no register points into the stack). -/
def ok (Γ : Reg → Status) (pops : Bool) : Act F E K → Bool
  | pop r => pops && (Γ r).assignable
  | peek r | back r _ | get r | getZero r | new r => (Γ r).assignable
  | push r => Γ r == .owned
  | set r _ args => (Γ r).writable && args.all fun q => (Γ q).readable
  | move r s => Γ s == .owned && (Γ r).assignable && r != s
  | put rs => decide rs.Nodup && rs.all fun q => (Γ q).puttable
  | swap _ => true
  | effect _ args => args.all fun q => (Γ q).readable
  | call _ args v => (args.all fun q => (Γ q).readable) &&
      match v with
      | none => true
      | some r => Γ r == .owned || Γ r == .borrowed

/-- The statuses after one step. -/
def env (Γ : Reg → Status) : Act F E K → Reg → Status
  | pop r | getZero r | new r => Function.update Γ r .owned
  | peek r | back r _ | push r => Function.update Γ r .stacked
  | get r => Function.update Γ r .dirty
  | set r _ _ => Function.update Γ r (Γ r).written
  | move r s => Function.update (Function.update Γ r .owned) s .free
  | put rs => fun q => if rs.contains q then .free else Γ q
  | swap _ | effect _ _ | call _ _ _ => Γ

/-- Whether pops are allowed after one step. -/
def pops (pops : Bool) : Act F E K → Bool
  | peek _ | back _ _ | push _ => false
  | _ => pops

end Act

/-- The ownership check of a program. -/
def check {F C E K : Type} (Γ : Reg → Status) (pops : Bool) : Prog F C E K → Bool
  | .done | .fail => true
  | .act a p => a.ok Γ pops && check (a.env Γ) (a.pops pops) p
  | .branch _ args t e => (args.all fun q => (Γ q).readable) && check Γ pops t && check Γ pops e

/-! ## The machine -/

/-- What the machine does besides pointers. `X` names the operations, `V` is
the objects' values, `G` the state all frames share, `L` a frame's own state
and `O` how a frame ends. -/
structure Machine (X F C E K V G L O : Type) where
  /-- Each operation's program. -/
  prog : X → Prog F C E K
  fn : F → G → L → List V → V
  cond : C → G → L → List V → Bool
  eff : E → G → L → List V → G × L
  /-- The head of a frame's loop, from the stack's values: the next
  operation, or the end of the frame. -/
  prepare : G → L → List V → (G × L × X) ⊕ (G × O)
  /-- After an operation (the flag says it failed): go on, or end the frame. -/
  after : X → Bool → G → L → (G × L) ⊕ (G × O)
  /-- A call: the caller's state and the new frame's own state. -/
  enter : K → G → L → List V → G × L × L
  /-- The caller's state once the called frame ended. -/
  leave : K → G → L → O → G × L
  /-- The value of a new object. -/
  zero : V
  /-- The value written into objects put back, when verifying. -/
  poison : V
  /-- Past this many objects the pool takes no more. -/
  limit : Nat

/-- A frame: its stack (top first), its value object, its own state, the
operation in progress and its registers, and the kind of call it waits on.
`owns`, `env` and `pops` are ghost state for the check. -/
structure Frame (X F C E K L : Type) where
  stack : List Ptr
  value : Ptr
  l : L
  op : Option (X × Prog F C E K)
  regs : Reg → Ptr
  waiting : Option K
  owns : Bool
  env : Reg → Status
  pops : Bool

/-- The machine's configuration: the frames (the running one first), the
objects' values, the pool (its top first), the next new pointer, the shared
state and the outer frame's outcome. `dropped` (ghost) collects the objects
put back past the pool's limit. -/
structure Config (X F C E K V G L O : Type) where
  frames : List (Frame X F C E K L)
  heap : Ptr → V
  pool : List Ptr
  fresh : Nat
  g : G
  result : Option O
  dropped : List Ptr

/-- The configuration at the start of the outer frame: an empty stack, its
own value object `v`, no operation in progress, over a given pool. -/
def Config.init {X F C E K V G L O : Type} (heap : Ptr → V) (pool : List Ptr) (v fresh : Nat)
    (g : G) (l : L) : Config X F C E K V G L O :=
  { frames := [{ stack := [], value := v, l := l, op := none, regs := fun _ => v
                 waiting := none, owns := true, env := idleEnv, pops := true }]
    heap := heap, pool := pool, fresh := fresh, g := g, result := none, dropped := [] }

section Step

variable {X F C E K V G L O : Type}
variable (M : Machine X F C E K V G L O) (verify : Bool)

/-- The values of some registers. -/
def vals (heap : Ptr → V) (f : Frame X F C E K L) (args : List Reg) : List V :=
  args.map fun q => heap (f.regs q)

/-- Put objects back, in order: poisoned when verifying, dropped when the
pool is past its limit. -/
def putAll (c : Config X F C E K V G L O) (ps : List Ptr) : Config X F C E K V G L O :=
  if M.limit < c.pool.length then { c with dropped := c.dropped ++ ps }
  else
    { c with
      pool := ps.reverse ++ c.pool
      heap := if verify then fun p => if ps.contains p then M.poison else c.heap p else c.heap }

/-- Allocate a new object. -/
def alloc (c : Config X F C E K V G L O) : Config X F C E K V G L O :=
  { c with heap := Function.update c.heap c.fresh M.zero, fresh := c.fresh + 1 }

/-- Take an object from the pool, or allocate one when it is empty. -/
def take (c : Config X F C E K V G L O) : Ptr × Config X F C E K V G L O :=
  match c.pool with
  | q :: ps => (q, { c with pool := ps })
  | [] => (c.fresh, alloc M c)

@[simp] theorem alloc_heap (c : Config X F C E K V G L O) :
    (alloc M c).heap = Function.update c.heap c.fresh M.zero := rfl
@[simp] theorem alloc_frames (c : Config X F C E K V G L O) : (alloc M c).frames = c.frames := rfl
@[simp] theorem alloc_pool (c : Config X F C E K V G L O) : (alloc M c).pool = c.pool := rfl
@[simp] theorem alloc_dropped (c : Config X F C E K V G L O) : (alloc M c).dropped = c.dropped :=
  rfl
@[simp] theorem alloc_fresh (c : Config X F C E K V G L O) : (alloc M c).fresh = c.fresh + 1 :=
  rfl
@[simp] theorem alloc_g (c : Config X F C E K V G L O) : (alloc M c).g = c.g := rfl
@[simp] theorem alloc_result (c : Config X F C E K V G L O) : (alloc M c).result = c.result := rfl

theorem take_of_cons {c : Config X F C E K V G L O} {q : Ptr} {ps : List Ptr}
    (h : c.pool = q :: ps) : take M c = (q, { c with pool := ps }) := by
  rw [take, h]

theorem take_of_nil {c : Config X F C E K V G L O} (h : c.pool = []) :
    take M c = (c.fresh, alloc M c) := by
  rw [take, h]

@[simp] theorem putAll_frames (c : Config X F C E K V G L O) (ps : List Ptr) :
    (putAll M verify c ps).frames = c.frames := by
  unfold putAll
  split <;> rfl
@[simp] theorem putAll_fresh (c : Config X F C E K V G L O) (ps : List Ptr) :
    (putAll M verify c ps).fresh = c.fresh := by
  unfold putAll
  split <;> rfl
@[simp] theorem putAll_g (c : Config X F C E K V G L O) (ps : List Ptr) :
    (putAll M verify c ps).g = c.g := by
  unfold putAll
  split <;> rfl
@[simp] theorem putAll_result (c : Config X F C E K V G L O) (ps : List Ptr) :
    (putAll M verify c ps).result = c.result := by
  unfold putAll
  split <;> rfl

/-- `stack.swap(n)` on a stack written top first. -/
def swapTop (s : List Ptr) : Nat → Option (List Ptr)
  | 0 => none
  | 1 => if s.isEmpty then none else some s
  | n + 2 =>
    match s with
    | a :: s' =>
      match s'.drop n with
      | b :: t => some (b :: s'.take n ++ a :: t)
      | [] => none
    | [] => none

/-- `stack.data[len - n]` on a stack written top first. -/
def backAt (s : List Ptr) : Nat → Option Ptr
  | 0 => none
  | n + 1 => s[n]?

/-- The end of the running frame `f`: its stack goes back to the pool, and
the caller takes up its operation. -/
def endFrame (c : Config X F C E K V G L O) (f : Frame X F C E K L)
    (rest : List (Frame X F C E K L)) (g : G) (o : O) : Option (Config X F C E K V G L O) :=
  let c := putAll M verify { c with frames := rest, g := g } f.stack.reverse
  match rest with
  | [] => some { c with result := some o }
  | caller :: rest' =>
    match caller.waiting with
    | some k =>
      let s := M.leave k c.g caller.l o
      some { c with frames := { caller with l := s.2, waiting := none } :: rest', g := s.1 }
    | none => none

/-- One step of the operation `x` of the running frame `f`, at the program
step `a` followed by `p`. The ghost statuses follow `Act.env` and `Act.pops`. -/
def actStep (c : Config X F C E K V G L O) (f : Frame X F C E K L)
    (rest : List (Frame X F C E K L)) (x : X) (p : Prog F C E K) (a : Act F E K) :
    Option (Config X F C E K V G L O) :=
  let f₀ := { f with env := a.env f.env, pops := a.pops f.pops, op := some (x, p) }
  match a with
  | .pop r =>
    match f.stack with
    | q :: s => some { c with frames := { f₀ with
        stack := s, regs := Function.update f.regs r q } :: rest }
    | [] => none
  | .peek r =>
    match f.stack with
    | q :: _ => some { c with frames := { f₀ with regs := Function.update f.regs r q } :: rest }
    | [] => none
  | .back r n =>
    match backAt f.stack n with
    | some q => some { c with frames := { f₀ with regs := Function.update f.regs r q } :: rest }
    | none => none
  | .push r => some { c with frames := { f₀ with stack := f.regs r :: f.stack } :: rest }
  | .get r =>
    let t := take M c
    some { t.2 with frames := { f₀ with regs := Function.update f.regs r t.1 } :: rest }
  | .getZero r =>
    let t := take M c
    some { t.2 with
      heap := Function.update t.2.heap t.1 M.zero
      frames := { f₀ with regs := Function.update f.regs r t.1 } :: rest }
  | .new r =>
    some { alloc M c with frames := { f₀ with regs := Function.update f.regs r c.fresh } :: rest }
  | .set r fn args =>
    some { c with
      heap := Function.update c.heap (f.regs r) (M.fn fn c.g f.l (vals c.heap f args))
      frames := f₀ :: rest }
  | .move r s =>
    some { c with frames := { f₀ with regs := Function.update f.regs r (f.regs s) } :: rest }
  | .put rs => some { putAll M verify c (rs.map f.regs) with frames := f₀ :: rest }
  | .swap n =>
    match swapTop f.stack n with
    | some s => some { c with frames := { f₀ with stack := s } :: rest }
    | none => none
  | .effect e args =>
    let s := M.eff e c.g f.l (vals c.heap f args)
    some { c with g := s.1, frames := { f₀ with l := s.2 } :: rest }
  | .call k args v =>
    let s := M.enter k c.g f.l (vals c.heap f args)
    let c' := match v with
      | some _ => c
      | none => alloc M c
    let vp := match v with
      | some r => f.regs r
      | none => c.fresh
    let child : Frame X F C E K L :=
      { stack := [], value := vp, l := s.2.2, op := none, regs := fun _ => vp,
        waiting := none, owns := v.isNone, env := idleEnv, pops := true }
    some { c' with g := s.1, frames := child :: { f₀ with l := s.2.1, waiting := some k } :: rest }

variable [DecidableEq V]

/-- The end of an operation: the pool is checked when verifying, then the
frame goes on or ends. -/
def opEnd (c : Config X F C E K V G L O) (f : Frame X F C E K L)
    (rest : List (Frame X F C E K L)) (x : X) (failed : Bool) :
    Option (Config X F C E K V G L O) :=
  if verify && !(c.pool.all fun p => decide (c.heap p = M.poison)) then none
  else
    match M.after x failed c.g f.l with
    | .inl s => some { c with g := s.1, frames := { f with
        l := s.2, op := none, env := idleEnv, pops := true } :: rest }
    | .inr s => endFrame M verify c { f with env := idleEnv } rest s.1 s.2

/-- One step of the running frame `f`. -/
def headStep (c : Config X F C E K V G L O) (f : Frame X F C E K L)
    (rest : List (Frame X F C E K L)) : Option (Config X F C E K V G L O) :=
  match f.op with
  | none =>
    match M.prepare c.g f.l (f.stack.map c.heap) with
    | .inl s => some { c with g := s.1, frames := { f with
        l := s.2.1, op := some (s.2.2, M.prog s.2.2), regs := fun _ => f.value,
        env := startEnv, pops := true } :: rest }
    | .inr s => endFrame M verify c f rest s.1 s.2
  | some (x, .done) => opEnd M verify c f rest x false
  | some (x, .fail) => opEnd M verify c f rest x true
  | some (x, .branch cnd args t e) =>
    some { c with frames := { f with
      op := some (x, if M.cond cnd c.g f.l (vals c.heap f args) then t else e) } :: rest }
  | some (x, .act a p) => actStep M verify c f rest x p a

/-- One step of the machine. -/
def step (c : Config X F C E K V G L O) : Option (Config X F C E K V G L O) :=
  match c.frames with
  | [] => none
  | f :: rest => headStep M verify c f rest

theorem step_of_nil {c : Config X F C E K V G L O} (hf : c.frames = []) : step M verify c = none := by
  rw [step, hf]

theorem step_of_cons {c : Config X F C E K V G L O} {f : Frame X F C E K L}
    {rest : List (Frame X F C E K L)} (hf : c.frames = f :: rest) :
    step M verify c = headStep M verify c f rest := by
  rw [step, hf]

/-- `n` steps of the machine. -/
def run : Nat → Config X F C E K V G L O → Option (Config X F C E K V G L O)
  | 0, c => some c
  | n + 1, c => (step M verify c).bind (run n)

end Step

end PoolMachine
