import Mathlib
import Btp.Lib.PoolMachine

/-!
# The ownership invariant of a pool machine

Every object a frame can reach is accounted for once: in the pool, among the
objects dropped past the pool's limit, or held by one frame alone (on its
stack, in a register that owns it, or as the value object the frame owns).
`Inv` says that this account has no duplicates and lies below the next new
pointer, that every frame's value object is its own or held by an outer
frame, and that each frame's registers agree with their statuses, the rest of
its operation passing the check. A checked machine keeps `Inv` over every step
(`step_inv`) and so over every run (`run_inv`).
-/

namespace PoolMachine

open scoped List

/-! ## Lists with one entry changed -/

theorem nodup_of_subperm {α : Type} {l₁ l₂ : List α} (h : l₁ <+~ l₂) (hl : l₂.Nodup) :
    l₁.Nodup := by
  obtain ⟨l, hp, hs⟩ := h
  exact (hl.sublist hs).perm hp

/-- A list built entry by entry from distinct keys, with the entry of `a`
changed to `m`, is `m` and the list without `a`'s entry. -/
theorem flatMap_update_perm {α β : Type} [DecidableEq α] {l : List α} (hl : l.Nodup) {a : α}
    (ha : a ∈ l) (g : α → List β) (m : List β) :
    l.flatMap (Function.update g a m) ~ m ++ l.flatMap (Function.update g a []) := by
  induction l with
  | nil => cases ha
  | cons x l ih =>
    rw [List.nodup_cons] at hl
    by_cases hx : x = a
    · subst hx
      have hrest : ∀ m', l.flatMap (Function.update g x m') = l.flatMap g := fun m' =>
        List.flatMap_congr fun y hy => Function.update_of_ne (ne_of_mem_of_not_mem hy hl.1) _ _
      rw [List.flatMap_cons, List.flatMap_cons, Function.update_self, Function.update_self,
        hrest, hrest, List.nil_append]
    · have ha' : a ∈ l := (List.mem_cons.1 ha).resolve_left (Ne.symm hx)
      rw [List.flatMap_cons, List.flatMap_cons, Function.update_of_ne hx,
        Function.update_of_ne hx]
      exact ((ih hl.2 ha').append_left (g x)).trans (List.perm_append_comm_assoc _ _ _)

/-! ## What registers hold alone -/

/-- What a register holding `p` with status `s` holds alone. -/
def own (s : Status) (p : Ptr) : List Ptr := if s.puttable then [p] else []

theorem own_of_puttable {s : Status} (h : s.puttable = true) (p : Ptr) : own s p = [p] := by
  rw [own, if_pos h]

theorem own_of_not_puttable {s : Status} (h : s.puttable = false) (p : Ptr) : own s p = [] := by
  rw [own, if_neg (by simp [h])]

@[simp] theorem own_written (s : Status) (p : Ptr) : own s.written p = own s p := by
  cases s <;> rfl

/-- One register's share. -/
def slot (env : Reg → Status) (regs : Reg → Ptr) (q : Reg) : List Ptr := own (env q) (regs q)

/-- The objects the registers hold alone. -/
def heldRegs (env : Reg → Status) (regs : Reg → Ptr) : List Ptr :=
  (List.finRange 10).flatMap (slot env regs)

/-- The objects the registers other than `r` hold alone. -/
def others (env : Reg → Status) (regs : Reg → Ptr) (r : Reg) : List Ptr :=
  (List.finRange 10).flatMap (Function.update (slot env regs) r [])

theorem heldRegs_perm (env : Reg → Status) (regs : Reg → Ptr) (r : Reg) :
    heldRegs env regs ~ own (env r) (regs r) ++ others env regs r := by
  have h := flatMap_update_perm (List.nodup_finRange 10) (List.mem_finRange r) (slot env regs)
    (slot env regs r)
  rwa [Function.update_eq_self] at h

theorem slot_update (env : Reg → Status) (regs : Reg → Ptr) (r : Reg) (s : Status) (q : Ptr) :
    slot (Function.update env r s) (Function.update regs r q) =
      Function.update (slot env regs) r (own s q) := by
  funext t
  by_cases ht : t = r
  · subst ht
    simp only [slot, Function.update_self]
  · simp only [slot, Function.update_of_ne ht]

/-- Giving register `r` the object `q` with status `s`. -/
theorem heldRegs_update (env : Reg → Status) (regs : Reg → Ptr) (r : Reg) (s : Status)
    (q : Ptr) :
    heldRegs (Function.update env r s) (Function.update regs r q) ~ own s q ++ others env regs r := by
  have h := heldRegs_perm (Function.update env r s) (Function.update regs r q) r
  rw [Function.update_self, Function.update_self] at h
  unfold others at h ⊢
  rwa [slot_update, Function.update_idem] at h

theorem others_subperm (env : Reg → Status) (regs : Reg → Ptr) (r : Reg) :
    others env regs r <+~ heldRegs env regs :=
  (List.sublist_append_right _ _).subperm.trans (heldRegs_perm env regs r).symm.subperm

theorem heldRegs_update_subperm (env : Reg → Status) (regs : Reg → Ptr) (r : Reg) (s : Status)
    (q : Ptr) :
    heldRegs (Function.update env r s) (Function.update regs r q) <+~ own s q ++ heldRegs env regs :=
  (heldRegs_update env regs r s q).subperm.trans
    ((List.subperm_append_left _).2 (others_subperm env regs r))

/-- Changing only register `r`'s status. -/
theorem heldRegs_update_env (env : Reg → Status) (regs : Reg → Ptr) (r : Reg) (s : Status) :
    heldRegs (Function.update env r s) regs ~ own s (regs r) ++ others env regs r := by
  have h := heldRegs_update env regs r s (regs r)
  rwa [Function.update_eq_self] at h

/-- Freeing a register that held `regs s` alone. -/
theorem heldRegs_free {env : Reg → Status} (regs : Reg → Ptr) {s : Reg}
    (h : (env s).puttable = true) :
    heldRegs env regs ~ regs s :: heldRegs (Function.update env s .free) regs := by
  have h₁ := heldRegs_perm env regs s
  have h₂ := heldRegs_update_env env regs s .free
  rw [own_of_puttable h] at h₁
  rw [own_of_not_puttable rfl, List.nil_append] at h₂
  exact h₁.trans (h₂.symm.cons _)

theorem heldRegs_written (env : Reg → Status) (regs : Reg → Ptr) (r : Reg) :
    heldRegs (Function.update env r (env r).written) regs = heldRegs env regs := by
  have h : slot (Function.update env r (env r).written) regs = slot env regs := by
    funext t
    by_cases ht : t = r
    · subst ht
      simp only [slot, Function.update_self, own_written]
    · simp only [slot, Function.update_of_ne ht]
  rw [heldRegs, h, heldRegs]

theorem heldRegs_of_not_puttable {env : Reg → Status} (h : ∀ q, (env q).puttable = false)
    (regs : Reg → Ptr) : heldRegs env regs = [] := by
  simp only [heldRegs, List.flatMap_eq_nil_iff]
  intro q _
  exact own_of_not_puttable (h q) _

theorem heldRegs_startEnv (regs : Reg → Ptr) : heldRegs startEnv regs = [] :=
  heldRegs_of_not_puttable (fun q => by unfold startEnv; split <;> rfl) regs

theorem startEnv_ne_stacked (t : Reg) : startEnv t ≠ .stacked := by
  unfold startEnv
  split <;> nofun

theorem startEnv_ne_owned (t : Reg) : startEnv t ≠ .owned := by
  unfold startEnv
  split <;> nofun

theorem heldRegs_idleEnv (regs : Reg → Ptr) : heldRegs idleEnv regs = [] :=
  heldRegs_of_not_puttable (fun _ => rfl) regs

theorem mem_heldRegs {env : Reg → Status} {regs : Reg → Ptr} {r : Reg}
    (h : (env r).puttable = true) : regs r ∈ heldRegs env regs :=
  (heldRegs_perm env regs r).symm.subset (by simp [own_of_puttable h])

/-- Putting back the objects of `rs`: their registers are freed. -/
theorem heldRegs_put {env : Reg → Status} (regs : Reg → Ptr) {rs : List Reg} (hnd : rs.Nodup)
    (hput : ∀ q ∈ rs, (env q).puttable = true) :
    heldRegs env regs ~
      rs.map regs ++ heldRegs (fun q => if rs.contains q then .free else env q) regs := by
  induction rs with
  | nil => simp
  | cons r rs ih =>
    rw [List.nodup_cons] at hnd
    set E : Reg → Status := fun q => if rs.contains q then .free else env q with hE
    have henv : (fun q => if (r :: rs).contains q then Status.free else env q) =
        Function.update E r .free := by
      funext q
      by_cases hq : q = r
      · subst hq
        simp
      · simp [hE, hq]
    have hr : (E r).puttable = true := by
      simp [hE, hnd.1, hput r (by simp)]
    rw [henv, List.map_cons]
    refine (ih hnd.2 fun q hq => hput q (List.mem_cons_of_mem _ hq)).trans ?_
    exact ((heldRegs_free regs hr).append_left _).trans List.perm_middle

/-! ## The account of a configuration -/

section Accounts

variable {X F C E K V G L O : Type}

namespace Frame

/-- The value object, when the frame owns it. -/
def ownValue (f : Frame X F C E K L) : List Ptr := if f.owns then [f.value] else []

/-- The objects the frame holds alone. -/
def held (f : Frame X F C E K L) : List Ptr := f.stack ++ heldRegs f.env f.regs ++ f.ownValue

/-- The frame's registers agree with their statuses, and the rest of its
operation passes the check. -/
structure Wf (f : Frame X F C E K L) : Prop where
  stacked : ∀ r, f.env r = .stacked → f.regs r ∈ f.stack
  borrowed : ∀ r, f.env r = .borrowed → f.regs r = f.value
  pops : f.pops = true → ∀ r, f.env r ≠ .stacked
  checked : ∀ x p, f.op = some (x, p) → check f.env f.pops p = true

end Frame

/-- The objects the frames hold. -/
def live (fs : List (Frame X F C E K L)) : List Ptr := fs.flatMap Frame.held

/-- Every frame's value object is its own or held by an outer frame. -/
def ValuesOK : List (Frame X F C E K L) → Prop
  | [] => True
  | f :: rest => (f.owns = true ∨ f.value ∈ live rest) ∧ ValuesOK rest

/-- Every object of the configuration, with its multiplicity. -/
def Config.acct (c : Config X F C E K V G L O) : List Ptr := c.pool ++ c.dropped ++ live c.frames

/-- The ownership invariant. -/
structure Inv (c : Config X F C E K V G L O) : Prop where
  nodup : c.acct.Nodup
  lt_fresh : ∀ p ∈ c.acct, p < c.fresh
  values : ValuesOK c.frames
  wf : ∀ f ∈ c.frames, f.Wf

theorem live_cons (f : Frame X F C E K L) (rest : List (Frame X F C E K L)) :
    live (f :: rest) = f.held ++ live rest := List.flatMap_cons

theorem acct_of_frames {c : Config X F C E K V G L O} {f : Frame X F C E K L}
    {rest : List (Frame X F C E K L)} (hf : c.frames = f :: rest) :
    c.acct = c.pool ++ c.dropped ++ f.held ++ live rest := by
  rw [Config.acct, hf, live_cons]
  simp only [List.append_assoc]

theorem Inv.of_subperm {c c' : Config X F C E K V G L O} (hi : Inv c) (hacct : c'.acct <+~ c.acct)
    (hfresh : c.fresh ≤ c'.fresh) (hv : ValuesOK c'.frames) (hwf : ∀ f ∈ c'.frames, f.Wf) :
    Inv c' :=
  ⟨nodup_of_subperm hacct hi.nodup,
    fun p hp => lt_of_lt_of_le (hi.lt_fresh p (hacct.subset hp)) hfresh, hv, hwf⟩

theorem Inv.of_alloc {c c' : Config X F C E K V G L O} (hi : Inv c)
    (hacct : c'.acct <+~ c.fresh :: c.acct) (hfresh : c.fresh < c'.fresh)
    (hv : ValuesOK c'.frames) (hwf : ∀ f ∈ c'.frames, f.Wf) : Inv c' := by
  have hnd : (c.fresh :: c.acct).Nodup :=
    List.nodup_cons.2 ⟨fun h => lt_irrefl _ (hi.lt_fresh _ h), hi.nodup⟩
  refine ⟨nodup_of_subperm hacct hnd, fun p hp => ?_, hv, hwf⟩
  rcases List.mem_cons.1 (hacct.subset hp) with rfl | h
  · exact hfresh
  · exact (hi.lt_fresh p h).trans hfresh

/-- A step of the running frame `f` to `f'`, the outer frames left alone. -/
theorem Inv.head {c c' : Config X F C E K V G L O} {f f' : Frame X F C E K L}
    {rest : List (Frame X F C E K L)} (hi : Inv c) (hf : c.frames = f :: rest)
    (hf' : c'.frames = f' :: rest)
    (hacct : c'.pool ++ c'.dropped ++ f'.held <+~ c.pool ++ c.dropped ++ f.held)
    (hfresh : c'.fresh = c.fresh) (hvalue : f'.value = f.value) (howns : f'.owns = f.owns)
    (hwf : f'.Wf) : Inv c' := by
  have hv := hi.values
  rw [hf] at hv
  refine hi.of_subperm ?_ hfresh.ge ?_ ?_
  · rw [acct_of_frames hf, acct_of_frames hf']
    exact hacct.append (List.Subperm.refl _)
  · rw [hf', ValuesOK, hvalue, howns]
    exact hv
  · rw [hf']
    intro g hg
    rcases List.mem_cons.1 hg with rfl | hg
    · exact hwf
    · exact hi.wf g (by rw [hf]; exact List.mem_cons_of_mem _ hg)

/-- A step of the running frame that takes a new object. -/
theorem Inv.head_alloc {c c' : Config X F C E K V G L O} {f f' : Frame X F C E K L}
    {rest : List (Frame X F C E K L)} (hi : Inv c) (hf : c.frames = f :: rest)
    (hf' : c'.frames = f' :: rest)
    (hacct : c'.pool ++ c'.dropped ++ f'.held <+~ c.fresh :: (c.pool ++ c.dropped ++ f.held))
    (hfresh : c'.fresh = c.fresh + 1) (hvalue : f'.value = f.value) (howns : f'.owns = f.owns)
    (hwf : f'.Wf) : Inv c' := by
  have hv := hi.values
  rw [hf] at hv
  refine hi.of_alloc ?_ (by omega) ?_ ?_
  · rw [acct_of_frames hf, acct_of_frames hf', ← List.cons_append]
    exact hacct.append (List.Subperm.refl _)
  · rw [hf', ValuesOK, hvalue, howns]
    exact hv
  · rw [hf']
    intro g hg
    rcases List.mem_cons.1 hg with rfl | hg
    · exact hwf
    · exact hi.wf g (by rw [hf]; exact List.mem_cons_of_mem _ hg)

/-! ## Helpers for the steps -/

theorem subperm_cons_middle {l₁ l₂ : List Ptr} {q : Ptr} (h : l₁ <+~ q :: l₂) (A : List Ptr) :
    A ++ l₁ <+~ q :: (A ++ l₂) :=
  ((List.subperm_append_left A).2 h).trans List.perm_middle.subperm

theorem perm_of_count {l₁ l₂ : List Ptr} (h : ∀ p, l₁.count p = l₂.count p) : l₁ ~ l₂ :=
  List.perm_iff_count.2 h

theorem backAt_mem {s : List Ptr} {n : Nat} {q : Ptr} (h : backAt s n = some q) : q ∈ s := by
  cases n with
  | zero => cases h
  | succ n => exact List.mem_of_getElem? h

theorem swapTop_perm {s s' : List Ptr} {n : Nat} (h : swapTop s n = some s') : s' ~ s := by
  rcases n with _ | _ | n
  · cases h
  · simp only [swapTop] at h
    split_ifs at h
    cases h
    exact List.Perm.refl _
  · cases s with
    | nil => cases h
    | cons a s'' =>
      simp only [swapTop] at h
      cases hdrop : s''.drop n with
      | nil =>
        rw [hdrop] at h
        cases h
      | cons b t =>
        rw [hdrop] at h
        cases h
        have hs : s'' = s''.take n ++ b :: t := by rw [← hdrop, List.take_append_drop]
        calc b :: (s''.take n ++ a :: t) ~ b :: a :: (s''.take n ++ t) := List.perm_middle.cons b
          _ ~ a :: b :: (s''.take n ++ t) := List.Perm.swap a b _
          _ ~ a :: (s''.take n ++ b :: t) := List.perm_middle.symm.cons a
          _ = a :: s'' := by rw [← hs]

theorem check_act_iff {Γ : Reg → Status} {pops : Bool} {a : Act F E K} {p : Prog F C E K} :
    check Γ pops (.act a p) = true ↔ a.ok Γ pops = true ∧ check (a.env Γ) (a.pops pops) p = true := by
  simp [check]

namespace Frame

/-- A frame whose registers each keep their object and status, or take a
status that asks nothing of the object. -/
theorem Wf.of_regs {f f' : Frame X F C E K L} (hwf : f.Wf)
    (hregs : ∀ t, (f'.env t = f.env t ∧ f'.regs t = f.regs t) ∨ f'.env t = .free ∨
      f'.env t = .owned ∨ f'.env t = .dirty)
    (hstack : ∀ t, f.env t = .stacked → f.regs t ∈ f'.stack) (hvalue : f'.value = f.value)
    (hpops : f'.pops = true → f.pops = true)
    (hchecked : ∀ x p, f'.op = some (x, p) → check f'.env f'.pops p = true) : f'.Wf := by
  refine ⟨fun t ht => ?_, fun t ht => ?_, fun hp t => ?_, hchecked⟩
  · rcases hregs t with ⟨he, hr⟩ | he | he | he <;> rw [he] at ht <;> try cases ht
    rw [hr]
    exact hstack t ht
  · rcases hregs t with ⟨he, hr⟩ | he | he | he <;> rw [he] at ht <;> try cases ht
    rw [hr, hvalue]
    exact hwf.borrowed t ht
  · rcases hregs t with ⟨he, _⟩ | he | he | he <;> rw [he]
    · exact hwf.pops (hpops hp) t
    all_goals exact nofun

/-- A frame between operations, with no register in use. -/
theorem Wf.of_idle {f : Frame X F C E K L} (henv : f.env = idleEnv) (hop : f.op = none) : f.Wf := by
  refine ⟨fun t h => ?_, fun t h => ?_, fun _ t h => ?_, fun _ _ h => ?_⟩ <;>
    simp [henv, hop, idleEnv] at h

/-- A frame that points register `r` at the object `q` on its stack. -/
theorem Wf.of_stacked {f f' : Frame X F C E K L} (hwf : f.Wf) {r : Reg} {q : Ptr}
    (henv : f'.env = Function.update f.env r .stacked) (hregs : f'.regs = Function.update f.regs r q)
    (hq : q ∈ f'.stack) (hstack : ∀ p ∈ f.stack, p ∈ f'.stack) (hvalue : f'.value = f.value)
    (hpops : f'.pops = false)
    (hchecked : ∀ x p, f'.op = some (x, p) → check f'.env f'.pops p = true) : f'.Wf := by
  refine ⟨fun t ht => ?_, fun t ht => ?_, fun hp => ?_, hchecked⟩
  · rw [hregs]
    by_cases htr : t = r
    · subst htr
      rwa [Function.update_self]
    · rw [henv, Function.update_of_ne htr] at ht
      rw [Function.update_of_ne htr]
      exact hstack _ (hwf.stacked t ht)
  · by_cases htr : t = r
    · subst htr
      rw [henv, Function.update_self] at ht
      cases ht
    · rw [henv, Function.update_of_ne htr] at ht
      rw [hregs, Function.update_of_ne htr, hvalue]
      exact hwf.borrowed t ht
  · rw [hpops] at hp
    cases hp

/-- The objects held by a frame whose register `r` took `q` with status `s`,
its stack now `S`. -/
theorem held_update_subperm {f f' : Frame X F C E K L} {r : Reg} {s : Status} {q : Ptr}
    (henv : f'.env = Function.update f.env r s) (hregs : f'.regs = Function.update f.regs r q)
    (hov : f'.ownValue = f.ownValue) :
    f'.held <+~ own s q ++ (f'.stack ++ heldRegs f.env f.regs ++ f.ownValue) := by
  rw [held, henv, hregs, hov]
  refine ((List.Subperm.refl _).append (heldRegs_update_subperm _ _ r s q)).append
    (List.Subperm.refl _) |>.trans (perm_of_count fun p => ?_).subperm
  simp only [List.count_append]
  omega

theorem ownValue_eq {f f' : Frame X F C E K L} (hv : f'.value = f.value) (ho : f'.owns = f.owns) :
    f'.ownValue = f.ownValue := by
  rw [ownValue, ownValue, hv, ho]

/-- The frame after register `r` takes an object `q` it holds alone, its
stack kept: it holds `q` besides what `f` held. -/
theorem held_take {f f' : Frame X F C E K L} {r : Reg} {s : Status} {q : Ptr}
    (henv : f'.env = Function.update f.env r s) (hregs : f'.regs = Function.update f.regs r q)
    (hov : f'.ownValue = f.ownValue) (hstack : f'.stack = f.stack) (hs : s.puttable = true) :
    f'.held <+~ q :: f.held := by
  refine (held_update_subperm henv hregs hov).trans ?_
  rw [own_of_puttable hs, hstack]
  exact List.Subperm.refl _

end Frame

/-- The outer frame starts over a pool without duplicates that holds
neither its value object nor anything not yet allocated. -/
theorem Inv.init {heap : Ptr → V} {pool : List Ptr} {v fresh : Nat} {g : G} {l : L}
    (hnd : pool.Nodup) (hv : v ∉ pool) (hfresh : ∀ p ∈ v :: pool, p < fresh) :
    Inv (Config.init heap pool v fresh g l : Config X F C E K V G L O) := by
  have hacct : (Config.init heap pool v fresh g l : Config X F C E K V G L O).acct =
      pool ++ [v] := by
    simp [Config.acct, Config.init, live, Frame.held, Frame.ownValue, heldRegs_idleEnv]
  refine ⟨?_, ?_, ⟨Or.inl rfl, trivial⟩, ?_⟩
  · rw [hacct]
    exact List.nodup_append_comm.2 (List.nodup_cons.2 ⟨hv, hnd⟩)
  · rw [hacct]
    intro p hp
    exact hfresh p (List.perm_append_singleton v pool |>.subset hp)
  · intro f hf
    rw [Config.init, List.mem_singleton] at hf
    subst hf
    exact Frame.Wf.of_idle rfl rfl

theorem checked_some {Γ : Reg → Status} {pops : Bool} {x : X} {p : Prog F C E K}
    (h : check Γ pops p = true) : ∀ x' p', some (x, p) = some (x', p') → check Γ pops p' = true := by
  rintro x' p' ⟨⟩
  exact h

/-- A register update that leaves no obligation on the object. -/
theorem update_cases (env : Reg → Status) (regs : Reg → Ptr) {r : Reg} {s : Status} (q : Ptr)
    (hs : s = .free ∨ s = .owned ∨ s = .dirty) (t : Reg) :
    (Function.update env r s t = env t ∧ Function.update regs r q t = regs t) ∨
      Function.update env r s t = .free ∨ Function.update env r s t = .owned ∨
      Function.update env r s t = .dirty := by
  by_cases ht : t = r
  · subst ht
    rw [Function.update_self]
    exact Or.inr hs
  · exact Or.inl ⟨Function.update_of_ne ht _ _, Function.update_of_ne ht _ _⟩

end Accounts

section Steps

variable {X F C E K V G L O : Type} (M : Machine X F C E K V G L O) (verify : Bool)

theorem putAll_pool_dropped (c : Config X F C E K V G L O) (ps : List Ptr) :
    (putAll M verify c ps).pool ++ (putAll M verify c ps).dropped ~ ps ++ (c.pool ++ c.dropped) := by
  unfold putAll
  split
  · exact perm_of_count fun p => by simp only [List.count_append]; omega
  · exact perm_of_count fun p => by simp only [List.count_append, List.count_reverse]; omega

variable {M}

/-- A step of the running frame that takes an object from the pool, or a new
one when the pool is empty. -/
theorem Inv.take_head {c c' : Config X F C E K V G L O} {f f' : Frame X F C E K L}
    {rest : List (Frame X F C E K L)} (hi : Inv c) (hf : c.frames = f :: rest)
    (hf' : c'.frames = f' :: rest) (hpool : c'.pool = (take M c).2.pool)
    (hdropped : c'.dropped = (take M c).2.dropped) (hfresh : c'.fresh = (take M c).2.fresh)
    (hheld : f'.held <+~ (take M c).1 :: f.held) (hvalue : f'.value = f.value)
    (howns : f'.owns = f.owns) (hwf : f'.Wf) : Inv c' := by
  cases hp : c.pool with
  | nil =>
    rw [take_of_nil M hp] at hpool hdropped hfresh hheld
    refine hi.head_alloc hf hf' ?_ hfresh hvalue howns hwf
    rw [hpool, hdropped, alloc_pool, alloc_dropped]
    exact subperm_cons_middle hheld _
  | cons q ps =>
    rw [take_of_cons M hp] at hpool hdropped hfresh hheld
    refine hi.head hf hf' ?_ hfresh hvalue howns hwf
    rw [hpool, hdropped, hp]
    exact subperm_cons_middle hheld _

/-- After a call: the new frame, its caller and the outer frames. -/
theorem Inv.wf_call {c : Config X F C E K V G L O} {f child caller : Frame X F C E K L}
    {rest : List (Frame X F C E K L)} (hi : Inv c) (hf : c.frames = f :: rest)
    (hchild : child.Wf) (hcaller : caller.Wf) : ∀ g ∈ child :: caller :: rest, g.Wf := by
  intro g hg
  rcases List.mem_cons.1 hg with rfl | hg
  · exact hchild
  rcases List.mem_cons.1 hg with rfl | hg
  · exact hcaller
  · exact hi.wf g (by rw [hf]; exact List.mem_cons_of_mem _ hg)

/-- The frame a call enters, and the caller waiting on it. -/
theorem actStep_call_inv {c c' : Config X F C E K V G L O} {f : Frame X F C E K L}
    {rest : List (Frame X F C E K L)} {x : X} {p : Prog F C E K} {k : K} {args : List Reg}
    {v : Option Reg} (hi : Inv c) (hf : c.frames = f :: rest) (hwf : f.Wf)
    (hok : (Act.call k args v : Act F E K).ok f.env f.pops = true)
    (hnext : check f.env f.pops p = true)
    (h : actStep M verify c f rest x p (.call k args v) = some c') : Inv c' := by
  have hv := hi.values
  rw [hf] at hv
  cases v with
  | some r =>
    simp only [actStep] at h
    cases h
    simp only [Act.ok, Bool.and_eq_true, Bool.or_eq_true, beq_iff_eq] at hok
    refine hi.of_subperm ?_ le_rfl ⟨Or.inr ?_, hv⟩ ?_
    · refine (perm_of_count fun q => ?_).subperm
      simp only [Config.acct, hf, live_cons, Frame.held, Frame.ownValue, heldRegs_idleEnv,
        Act.env, Option.isNone_some, Bool.false_eq_true, if_false, List.count_append,
        List.count_nil]
      omega
    · show f.regs r ∈ f.held ++ live rest
      rcases hok.2 with hr | hr
      · exact List.mem_append_left _ (List.mem_append_left _
          (List.mem_append_right _ (mem_heldRegs (by rw [hr]; rfl))))
      · rw [hwf.borrowed r hr]
        rcases hv.1 with ho | hl
        · exact List.mem_append_left _ (List.mem_append_right _ (by simp [Frame.ownValue, ho]))
        · exact List.mem_append_right _ hl
    · exact hi.wf_call hf (Frame.Wf.of_idle rfl rfl)
        (hwf.of_regs (fun _ => Or.inl ⟨rfl, rfl⟩) hwf.stacked rfl id (checked_some hnext))
  | none =>
    simp only [actStep] at h
    cases h
    refine hi.of_alloc ?_ (by simp) ⟨Or.inl rfl, hv⟩ ?_
    · refine (perm_of_count fun q => ?_).subperm
      simp only [Config.acct, hf, live_cons, Frame.held, Frame.ownValue, heldRegs_idleEnv,
        Act.env, alloc_pool, alloc_dropped, Option.isNone_none, if_true, List.count_append,
        List.count_cons, List.count_nil]
      omega
    · exact hi.wf_call hf (Frame.Wf.of_idle rfl rfl)
        (hwf.of_regs (fun _ => Or.inl ⟨rfl, rfl⟩) hwf.stacked rfl id (checked_some hnext))

theorem actStep_inv {c c' : Config X F C E K V G L O} {f : Frame X F C E K L}
    {rest : List (Frame X F C E K L)} {x : X} {p : Prog F C E K} {a : Act F E K}
    (hi : Inv c) (hf : c.frames = f :: rest) (hck : check f.env f.pops (.act a p) = true)
    (h : actStep M verify c f rest x p a = some c') : Inv c' := by
  obtain ⟨hok, hnext⟩ := check_act_iff.1 hck
  have hwf : f.Wf := hi.wf f (by rw [hf]; exact List.mem_cons_self)
  cases a with
  | pop r =>
    simp only [actStep] at h
    cases hs : f.stack with
    | nil =>
      rw [hs] at h
      cases h
    | cons q s =>
      rw [hs] at h
      cases h
      simp only [Act.ok, Bool.and_eq_true] at hok
      refine hi.head hf rfl ((List.subperm_append_left _).2 ?_) rfl rfl rfl ?_
      · refine List.Subperm.trans (Frame.held_update_subperm (f := f) rfl rfl rfl) ?_
        rw [own_of_puttable rfl, Frame.held, hs]
        exact List.Subperm.refl _
      · exact hwf.of_regs (update_cases _ _ q (by simp)) (fun t ht => absurd ht (hwf.pops hok.1 t))
          rfl id (checked_some hnext)
  | peek r =>
    simp only [actStep] at h
    cases hs : f.stack with
    | nil =>
      rw [hs] at h
      cases h
    | cons q s =>
      rw [hs] at h
      cases h
      refine hi.head hf rfl ((List.subperm_append_left _).2 ?_) rfl rfl rfl ?_
      · refine List.Subperm.trans (Frame.held_update_subperm (f := f) rfl rfl rfl) ?_
        rw [own_of_not_puttable rfl, List.nil_append]
        simp only [Frame.held, hs]
        exact List.Subperm.refl _
      · exact hwf.of_stacked rfl rfl (by simp) (fun _ h => by simpa [hs] using h) rfl rfl
          (checked_some hnext)
  | back r n =>
    simp only [actStep] at h
    cases hb : backAt f.stack n with
    | none =>
      rw [hb] at h
      cases h
    | some q =>
      rw [hb] at h
      cases h
      refine hi.head hf rfl ((List.subperm_append_left _).2 ?_) rfl rfl rfl ?_
      · refine List.Subperm.trans (Frame.held_update_subperm (f := f) rfl rfl rfl) ?_
        rw [own_of_not_puttable rfl, List.nil_append, Frame.held]
      · exact hwf.of_stacked rfl rfl (backAt_mem hb) (fun _ h => h) rfl rfl (checked_some hnext)
  | push r =>
    simp only [actStep] at h
    cases h
    simp only [Act.ok, beq_iff_eq] at hok
    refine hi.head hf rfl ((List.subperm_append_left _).2 (List.Perm.subperm ?_)) rfl rfl rfl ?_
    · have h₁ := heldRegs_update_env f.env f.regs r .stacked
      have h₂ := heldRegs_perm f.env f.regs r
      rw [own_of_not_puttable rfl, List.nil_append] at h₁
      rw [hok, own_of_puttable rfl] at h₂
      refine perm_of_count fun q => ?_
      simp only [Frame.held, Frame.ownValue, Act.env, List.count_append, List.count_cons,
        h₁.count_eq, h₂.count_eq, List.count_nil]
      omega
    · exact hwf.of_stacked rfl (Function.update_eq_self r f.regs).symm List.mem_cons_self
        (fun _ h => List.mem_cons_of_mem _ h) rfl rfl (checked_some hnext)
  | get r =>
    simp only [actStep] at h
    cases h
    refine hi.take_head hf rfl rfl rfl rfl ?_ rfl rfl ?_
    · exact Frame.held_take (f := f) rfl rfl rfl rfl rfl
    · exact hwf.of_regs (update_cases _ _ _ (by simp)) hwf.stacked rfl id (checked_some hnext)
  | getZero r =>
    simp only [actStep] at h
    cases h
    refine hi.take_head hf rfl rfl rfl rfl ?_ rfl rfl ?_
    · exact Frame.held_take (f := f) rfl rfl rfl rfl rfl
    · exact hwf.of_regs (update_cases _ _ _ (by simp)) hwf.stacked rfl id (checked_some hnext)
  | new r =>
    simp only [actStep] at h
    cases h
    refine hi.head_alloc hf rfl (subperm_cons_middle ?_ _) rfl rfl rfl ?_
    · exact Frame.held_take (f := f) rfl rfl rfl rfl rfl
    · exact hwf.of_regs (update_cases _ _ _ (by simp)) hwf.stacked rfl id (checked_some hnext)
  | set r fn args =>
    simp only [actStep] at h
    cases h
    refine hi.head hf rfl ((List.subperm_append_left _).2 ?_) rfl rfl rfl ?_
    · simp only [Frame.held, Frame.ownValue, Act.env, heldRegs_written]
      exact List.Subperm.refl _
    · refine hwf.of_regs (fun t => ?_) hwf.stacked rfl id (checked_some hnext)
      by_cases ht : t = r
      · subst ht
        cases hr : f.env t <;> simp [Act.env, Status.written, hr]
      · exact Or.inl ⟨Function.update_of_ne ht _ _, rfl⟩
  | move r s =>
    simp only [actStep] at h
    cases h
    simp only [Act.ok, Bool.and_eq_true, beq_iff_eq, bne_iff_ne, ne_eq] at hok
    obtain ⟨⟨hs, -⟩, hrs⟩ := hok
    refine hi.head hf rfl ((List.subperm_append_left _).2 ?_) rfl rfl rfl ?_
    · simp only [Frame.held, Frame.ownValue, Act.env]
      refine (List.Subperm.refl _).append (List.Subperm.refl _) |>.append (List.Subperm.refl _) |>.trans ?_
      rw [Function.update_comm hrs]
      have h₁ := heldRegs_update_subperm (Function.update f.env s .free) f.regs r .owned (f.regs s)
      have h₂ := @heldRegs_free f.env f.regs s (by rw [hs]; rfl)
      rw [own_of_puttable rfl] at h₁
      exact ((List.Subperm.refl _).append (h₁.trans h₂.symm.subperm)).append (List.Subperm.refl _)
    · refine hwf.of_regs (fun t => ?_) hwf.stacked rfl id (checked_some hnext)
      by_cases hts : t = s
      · subst hts
        simp [Act.env]
      · by_cases htr : t = r
        · subst htr
          simp [Act.env, Function.update_of_ne hts]
        · exact Or.inl ⟨by simp [Act.env, hts, htr], Function.update_of_ne htr _ _⟩
  | put rs =>
    simp only [actStep] at h
    cases h
    simp only [Act.ok, Bool.and_eq_true, decide_eq_true_eq, List.all_eq_true] at hok
    refine hi.head hf rfl (List.Perm.subperm ?_) (putAll_fresh M verify c _) rfl rfl ?_
    · have h₁ := putAll_pool_dropped M verify c (rs.map f.regs)
      have h₂ := heldRegs_put f.regs hok.1 hok.2
      refine perm_of_count fun q => ?_
      have e₁ := h₁.count_eq q
      have e₂ := h₂.count_eq q
      simp only [List.count_append] at e₁ e₂
      simp only [Frame.held, Frame.ownValue, Act.env, List.count_append]
      omega
    · refine hwf.of_regs (fun t => ?_) hwf.stacked rfl id (checked_some hnext)
      by_cases ht : rs.contains t
      · exact Or.inr (Or.inl (if_pos ht))
      · exact Or.inl ⟨if_neg ht, rfl⟩
  | swap n =>
    simp only [actStep] at h
    cases hsw : swapTop f.stack n with
    | none =>
      rw [hsw] at h
      cases h
    | some s =>
      rw [hsw] at h
      cases h
      have hp := swapTop_perm hsw
      refine hi.head hf rfl ((List.subperm_append_left _).2 ?_) rfl rfl rfl ?_
      · simp only [Frame.held, Frame.ownValue, Act.env]
        exact ((hp.append (List.Perm.refl _)).append (List.Perm.refl _)).subperm
      · exact hwf.of_regs (fun _ => Or.inl ⟨rfl, rfl⟩) (fun t ht => hp.symm.subset (hwf.stacked t ht))
          rfl id (checked_some hnext)
  | effect e args =>
    simp only [actStep] at h
    cases h
    refine hi.head hf rfl (List.Subperm.refl _) rfl rfl rfl ?_
    exact hwf.of_regs (fun _ => Or.inl ⟨rfl, rfl⟩) hwf.stacked rfl id (checked_some hnext)
  | call k args v => exact actStep_call_inv verify hi hf hwf hok hnext h

theorem subperm_of_count {l₁ l₂ : List Ptr} (h : ∀ p, l₁.count p ≤ l₂.count p) : l₁ <+~ l₂ :=
  List.subperm_ext_iff.2 fun p _ => h p

/-- The end of a frame: its stack goes back to the pool and the caller, if
any, takes up its operation. -/
theorem endFrame_inv {c c' : Config X F C E K V G L O} {f f' : Frame X F C E K L}
    {rest : List (Frame X F C E K L)} {g : G} {o : O} (hi : Inv c) (hf : c.frames = f :: rest)
    (hst : f'.stack = f.stack) (h : endFrame M verify c f' rest g o = some c') : Inv c' := by
  unfold endFrame at h
  rw [hst] at h
  have hv := hi.values
  rw [hf] at hv
  have hwf : ∀ g ∈ rest, g.Wf := fun g hg => hi.wf g (by rw [hf]; exact List.mem_cons_of_mem _ hg)
  have hput := putAll_pool_dropped M verify { c with frames := rest, g := g } f.stack.reverse
  -- the account loses the frame's registers and value, its stack moving to the pool
  have hacct : ∀ c'' : Config X F C E K V G L O,
      c''.pool = (putAll M verify { c with frames := rest, g := g } f.stack.reverse).pool →
      c''.dropped = (putAll M verify { c with frames := rest, g := g } f.stack.reverse).dropped →
      live c''.frames = live rest → c''.acct <+~ c.acct := by
    intro c'' hp hd hfs
    refine subperm_of_count fun p => ?_
    have e := hput.count_eq p
    simp only [List.count_append, List.count_reverse] at e
    rw [acct_of_frames hf]
    simp only [Config.acct, hp, hd, hfs, Frame.held, List.count_append]
    omega
  cases rest with
  | nil =>
    cases h
    exact hi.of_subperm (hacct _ rfl rfl (by simp only [putAll_frames])) (by simp)
      (by simp only [putAll_frames]; trivial)
      (by simp)
  | cons caller rest' =>
    simp only at h
    cases hw : caller.waiting with
    | none =>
      rw [hw] at h
      cases h
    | some k =>
      rw [hw] at h
      cases h
      refine hi.of_subperm (hacct _ rfl rfl (by simp only [live_cons]; rfl))
        (by simp) hv.2 ?_
      intro g' hg'
      rcases List.mem_cons.1 hg' with rfl | hg'
      · have hc := hwf caller List.mem_cons_self
        exact hc.of_regs (fun _ => Or.inl ⟨rfl, rfl⟩) hc.stacked rfl id hc.checked
      · exact hwf g' (List.mem_cons_of_mem _ hg')

variable [DecidableEq V]

theorem opEnd_inv {c c' : Config X F C E K V G L O} {f : Frame X F C E K L}
    {rest : List (Frame X F C E K L)} {x : X} {failed : Bool} (hi : Inv c)
    (hf : c.frames = f :: rest) (h : opEnd M verify c f rest x failed = some c') : Inv c' := by
  unfold opEnd at h
  split_ifs at h
  split at h
  · cases h
    refine hi.head hf rfl ((List.subperm_append_left _).2 ?_) rfl rfl rfl (Frame.Wf.of_idle rfl rfl)
    refine subperm_of_count fun p => ?_
    simp only [Frame.held, Frame.ownValue, heldRegs_idleEnv, List.count_append, List.count_nil]
    omega
  · exact endFrame_inv verify hi hf rfl h

/-- Every program of the machine passes the check from the start of an
operation. -/
def Checked (M : Machine X F C E K V G L O) : Prop :=
  ∀ x, check startEnv true (M.prog x) = true

theorem step_inv (hM : Checked M) {c c' : Config X F C E K V G L O} (hi : Inv c)
    (h : step M verify c = some c') : Inv c' := by
  obtain hf | ⟨f, rest, hf⟩ : c.frames = [] ∨ ∃ f rest, c.frames = f :: rest := by
    cases c.frames <;> simp
  · rw [step_of_nil M verify hf] at h
    cases h
  rw [step_of_cons M verify hf] at h
  have hwf : f.Wf := hi.wf f (by rw [hf]; exact List.mem_cons_self)
  unfold headStep at h
  split at h
  · -- the head of the loop
    split at h
    · cases h
      refine hi.head hf rfl ((List.subperm_append_left _).2 ?_) rfl rfl rfl ?_
      · refine subperm_of_count fun p => ?_
        simp only [Frame.held, Frame.ownValue, heldRegs_startEnv, List.count_append,
          List.count_nil]
        omega
      · refine ⟨fun t ht => absurd ht (startEnv_ne_stacked t), fun t _ => rfl,
          fun _ t => startEnv_ne_stacked t, fun x p hop => ?_⟩
        cases hop
        exact hM _
    · exact endFrame_inv verify hi hf rfl h
  · exact opEnd_inv verify hi hf h
  · exact opEnd_inv verify hi hf h
  · -- a branch
    rename_i x cnd args t e hop
    cases h
    have hck := hwf.checked x _ hop
    simp only [check, Bool.and_eq_true] at hck
    refine hi.head hf rfl (List.Subperm.refl _) rfl rfl rfl ?_
    refine hwf.of_regs (fun _ => Or.inl ⟨rfl, rfl⟩) hwf.stacked rfl id ?_
    rintro x' p' ⟨⟩
    split
    · exact hck.1.2
    · exact hck.2
  · rename_i x a p hop
    exact actStep_inv verify hi hf (hwf.checked x _ hop) h

theorem run_inv (hM : Checked M) : ∀ (n : Nat) {c c' : Config X F C E K V G L O}, Inv c →
    run M verify n c = some c' → Inv c'
  | 0, _, _, hi, h => by
    cases h
    exact hi
  | n + 1, c, c', hi, h => by
    obtain ⟨c₁, h₁, h₂⟩ := Option.bind_eq_some_iff.1 h
    exact run_inv hM n (step_inv verify hM hi h₁) h₂

end Steps

end PoolMachine
