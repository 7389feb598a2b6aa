import Mathlib

/-!
# The last of each run of a sorted list

A loop over a list sorted by a key, and within a key by a version, that
keeps one element per key and replaces the element it kept when the next
one has the same key, keeps the element of highest version of each key. It
builds its result newest first, so the keys come out strictly decreasing.
This is the shape of a negotiation that settles, for every name two parties
share, on the highest version both know.
-/

namespace SortedRuns

variable {α κ ν : Type*} [LinearOrder κ] [LinearOrder ν] (key : α → κ) (ver : α → ν)

/-- One step: replace the newest element if it has the key of `a`, else put
`a` in front. -/
def collapseStep (acc : List α) (a : α) : List α :=
  match acc with
  | b :: t => if key b = key a then a :: t else a :: b :: t
  | [] => [a]

/-- The loop over the whole list. -/
def collapse (l : List α) : List α := l.foldl (collapseStep key) []

theorem collapse_snoc (l : List α) (a : α) :
    collapse key (l ++ [a]) = collapseStep key (collapse key l) a := by
  unfold collapse
  rw [List.foldl_append]
  rfl

/-- What the loop keeps of `l`: one element per key, in strictly decreasing
key order, each the one of highest version among the elements of its key. -/
structure Collapsed (l c : List α) : Prop where
  desc : c.Pairwise fun x y => key y < key x
  mem : ∀ x, x ∈ c ↔ x ∈ l ∧ ∀ y ∈ l, key y = key x → ver y ≤ ver x
  cover : ∀ y ∈ l, ∃ x ∈ c, key x = key y

variable {key ver}

/-- The newest element kept has the largest key seen. -/
theorem Collapsed.le_head {l t : List α} {b : α} (hc : Collapsed key ver l (b :: t)) :
    ∀ y ∈ l, key y ≤ key b := by
  intro y hy
  obtain ⟨x, hx, hxy⟩ := hc.cover y hy
  rcases List.mem_cons.1 hx with rfl | hx
  · exact hxy.symm.le
  · exact hxy ▸ (List.rel_of_pairwise_cons hc.desc hx).le

theorem Collapsed.nil : Collapsed key ver [] ([] : List α) :=
  ⟨List.Pairwise.nil, fun _ => by simp, fun _ hy => absurd hy List.not_mem_nil⟩

/-- One step keeps the description, when the new element comes last in the
order and no two elements share both key and version. -/
theorem Collapsed.snoc {l c : List α} {a : α} (hc : Collapsed key ver l c)
    (hle : ∀ y ∈ l, toLex (key y, ver y) ≤ toLex (key a, ver a))
    (hdet : ∀ y ∈ l, key y = key a → ver y = ver a → y = a) :
    Collapsed key ver (l ++ [a]) (collapseStep key c a) := by
  -- the order puts every earlier element below `a`: a lower key, or the same key and a lower version
  have hkey : ∀ y ∈ l, key y ≤ key a := fun y hy => by
    rcases Prod.Lex.le_iff.1 (hle y hy) with h | ⟨h, -⟩
    · exact h.le
    · exact h.le
  have hver : ∀ y ∈ l, key y = key a → ver y ≤ ver a := fun y hy hk => by
    rcases Prod.Lex.le_iff.1 (hle y hy) with h | ⟨-, h⟩
    · exact absurd hk (ne_of_lt h)
    · exact h
  -- `a` is the highest version of its key in `l ++ [a]`
  have ha : a ∈ l ++ [a] ∧ ∀ y ∈ l ++ [a], key y = key a → ver y ≤ ver a := by
    refine ⟨List.mem_append_right _ (List.mem_singleton_self a), fun y hy hk => ?_⟩
    rcases List.mem_append.1 hy with hy | hy
    · exact hver y hy hk
    · rw [List.mem_singleton.1 hy]
  -- an element of another key is the highest of its key in `l ++ [a]` iff it is in `l`
  have hother : ∀ x, key x ≠ key a →
      ((x ∈ l ++ [a] ∧ ∀ y ∈ l ++ [a], key y = key x → ver y ≤ ver x) ↔
        (x ∈ l ∧ ∀ y ∈ l, key y = key x → ver y ≤ ver x)) := by
    intro x hx
    simp only [List.mem_append, List.mem_singleton]
    constructor
    · rintro ⟨hx' | rfl, hmax⟩
      · exact ⟨hx', fun y hy => hmax y (Or.inl hy)⟩
      · exact absurd rfl hx
    · rintro ⟨hx', hmax⟩
      refine ⟨Or.inl hx', fun y hy hk => ?_⟩
      rcases hy with hy | rfl
      · exact hmax y hy hk
      · exact absurd hk.symm hx
  match c, hc with
  | [], hc =>
    -- nothing kept yet: nothing seen yet
    have hl : l = [] := List.eq_nil_iff_forall_not_mem.2 fun y hy => by
      obtain ⟨x, hx, -⟩ := hc.cover y hy
      exact List.not_mem_nil hx
    subst hl
    refine ⟨List.pairwise_singleton _ _, fun x => ?_, fun y hy => ⟨a, List.mem_singleton_self a, ?_⟩⟩
    · simp only [collapseStep, List.nil_append, List.mem_singleton, forall_eq, iff_self_and]
      rintro rfl -
      exact le_rfl
    · simp only [List.nil_append, List.mem_singleton] at hy
      rw [hy]
  | b :: t, hc =>
    have hb := hc.le_head
    by_cases hba : key b = key a
    · -- the same key: `a` replaces `b`
      simp only [collapseStep, hba, if_true]
      have ht : ∀ x ∈ t, key x < key a := fun x hx => hba ▸ List.rel_of_pairwise_cons hc.desc hx
      refine ⟨List.Pairwise.cons (fun x hx => ht x hx) (List.pairwise_cons.1 hc.desc).2,
        fun x => ?_, fun y hy => ?_⟩
      · by_cases hxa : key x = key a
        · constructor
          · intro hx
            rcases List.mem_cons.1 hx with rfl | hx
            · exact ha
            · exact absurd hxa (ne_of_lt (ht x hx))
          · rintro ⟨hx, hmax⟩
            rcases List.mem_append.1 hx with hx | hx
            · have := hmax a ha.1 hxa.symm
              exact List.mem_cons.2 (Or.inl (hdet x hx hxa (le_antisymm (hver x hx hxa) this)))
            · exact List.mem_cons.2 (Or.inl (List.mem_singleton.1 hx))
        · rw [hother x hxa, ← hc.mem x]
          constructor
          · intro hx
            rcases List.mem_cons.1 hx with rfl | hx
            · exact absurd rfl hxa
            · exact List.mem_cons_of_mem _ hx
          · intro hx
            rcases List.mem_cons.1 hx with rfl | hx
            · exact absurd hba hxa
            · exact List.mem_cons_of_mem _ hx
      · rcases List.mem_append.1 hy with hy | hy
        · obtain ⟨x, hx, hxy⟩ := hc.cover y hy
          rcases List.mem_cons.1 hx with rfl | hx
          · exact ⟨a, List.mem_cons_self, hba ▸ hxy⟩
          · exact ⟨x, List.mem_cons_of_mem _ hx, hxy⟩
        · exact ⟨a, List.mem_cons_self, by rw [List.mem_singleton.1 hy]⟩
    · -- a new key, above every key kept
      simp only [collapseStep, hba, if_false]
      have hlt : ∀ y ∈ l, key y < key a := fun y hy => by
        have hyb := hb y hy
        have hba' : key b < key a := lt_of_le_of_ne (hkey b ((hc.mem b).1 List.mem_cons_self).1) hba
        exact lt_of_le_of_lt hyb hba'
      have hkept : ∀ x ∈ b :: t, key x < key a := fun x hx => hlt x ((hc.mem x).1 hx).1
      refine ⟨List.Pairwise.cons hkept hc.desc, fun x => ?_, fun y hy => ?_⟩
      · by_cases hxa : key x = key a
        · constructor
          · intro hx
            rcases List.mem_cons.1 hx with rfl | hx
            · exact ha
            · exact absurd hxa (ne_of_lt (hkept x hx))
          · rintro ⟨hx, -⟩
            rcases List.mem_append.1 hx with hx | hx
            · exact absurd hxa (ne_of_lt (hlt x hx))
            · exact List.mem_cons.2 (Or.inl (List.mem_singleton.1 hx))
        · rw [hother x hxa, ← hc.mem x]
          constructor
          · intro hx
            rcases List.mem_cons.1 hx with rfl | hx
            · exact absurd rfl hxa
            · exact hx
          · exact List.mem_cons_of_mem _
      · rcases List.mem_append.1 hy with hy | hy
        · obtain ⟨x, hx, hxy⟩ := hc.cover y hy
          exact ⟨x, List.mem_cons_of_mem _ hx, hxy⟩
        · exact ⟨a, List.mem_cons_self, by rw [List.mem_singleton.1 hy]⟩

/-- Over a list sorted by key and version, in which key and version together
name one element, the loop keeps exactly the element of highest version of
each key, in strictly decreasing key order. -/
theorem collapsed (l : List α)
    (hsorted : l.Pairwise fun x y => toLex (key x, ver x) ≤ toLex (key y, ver y))
    (hdet : ∀ x ∈ l, ∀ y ∈ l, key x = key y → ver x = ver y → x = y) :
    Collapsed key ver l (collapse key l) := by
  induction l using List.reverseRecOn with
  | nil => exact Collapsed.nil
  | append_singleton l a ih =>
    rw [List.pairwise_append] at hsorted
    have hl := ih hsorted.1 fun x hx y hy => hdet x (List.mem_append_left _ hx) y (List.mem_append_left _ hy)
    rw [collapse_snoc]
    exact hl.snoc (fun y hy => hsorted.2.2 y hy a (List.mem_singleton_self a))
      (fun y hy hk hv => hdet y (List.mem_append_left _ hy) a
        (List.mem_append_right _ (List.mem_singleton_self a)) hk hv)

end SortedRuns
