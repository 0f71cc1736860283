import LoopNest.Analysis
import Mathlib.Algebra.Order.Ring.Nat
import Mathlib.Data.List.Nodup
import Mathlib.Data.List.Perm.Subperm

/-!
# Laminar families of loops

Loops are numbered by increasing headers, and bodies that share a position are nested.  So
among the loops that hold a position the number decides: the greatest one has the smallest
body.  Parents and owners are read off the numbers in this way.
-/

namespace LoopNest

/-!
## The least of a list
-/

theorem firstLeast?_eq_none {alpha : Type} {size : alpha -> Nat} {xs : List alpha} :
    firstLeast? size xs = none <-> xs = [] := by
  cases xs with
  | nil => simp [firstLeast?]
  | cons x xs =>
      simp only [firstLeast?]
      cases firstLeast? size xs with
      | none => simp
      | some y => by_cases h : size y < size x <;> simp [h]

theorem firstLeast?_spec {alpha : Type} {size : alpha -> Nat} {xs : List alpha} {x : alpha}
    (h : firstLeast? size xs = some x) : x ∈ xs ∧ forall y, y ∈ xs -> size x ≤ size y := by
  induction xs generalizing x with
  | nil => cases h
  | cons z xs ih =>
      simp only [firstLeast?] at h
      cases hrest : firstLeast? size xs with
      | none =>
          rw [hrest] at h
          cases h
          have hnil := firstLeast?_eq_none.mp hrest
          simp [hnil]
      | some y =>
          rw [hrest] at h
          rcases ih hrest with ⟨hy, hleast⟩
          by_cases hlt : size y < size z
          · simp only [if_pos hlt] at h
            cases h
            refine ⟨List.mem_cons_of_mem _ hy, fun w hw => ?_⟩
            rcases List.mem_cons.mp hw with rfl | hw
            · exact le_of_lt hlt
            · exact hleast w hw
          · simp only [if_neg hlt] at h
            cases h
            refine ⟨List.mem_cons_self, fun w hw => ?_⟩
            rcases List.mem_cons.mp hw with rfl | hw
            · exact le_refl _
            · exact le_trans (Nat.le_of_not_lt hlt) (hleast w hw)

namespace NaturalLoop

variable {size i j : Nat} {loops : List NaturalLoop} {k l : NaturalLoop} {p q : Nat}
  {holds : NaturalLoop -> LoopId -> Bool}

theorem smallest?_eq_none :
    smallest? loops holds = none <->
      forall i l, loops[i]? = some l -> holds l i = false := by
  rw [smallest?, Option.map_eq_none_iff, firstLeast?_eq_none, List.filter_eq_nil_iff]
  constructor
  · intro h i l hl
    have hfalse := h (l, i) (List.mem_zipIdx_iff_getElem?.mpr hl)
    simpa using hfalse
  · intro h entry hentry
    have hfalse := h entry.2 entry.1 (List.mem_zipIdx_iff_getElem?.mp hentry)
    simpa using hfalse

theorem smallest?_spec (h : smallest? loops holds = some i) :
    exists l, loops[i]? = some l ∧ holds l i = true ∧
      forall j k, loops[j]? = some k -> holds k j = true -> l.body.length ≤ k.body.length := by
  rw [smallest?, Option.map_eq_some_iff] at h
  rcases h with ⟨⟨l, i'⟩, hleast, rfl⟩
  rcases firstLeast?_spec hleast with ⟨hmem, hle⟩
  rcases List.mem_filter.mp hmem with ⟨hentry, hholds⟩
  refine ⟨l, List.mem_zipIdx_iff_getElem?.mp hentry, hholds, fun j k hk hkj => ?_⟩
  apply hle (k, j)
  exact List.mem_filter.mpr ⟨List.mem_zipIdx_iff_getElem?.mpr hk, hkj⟩

/-- Loops by increasing header whose bodies are nested or disjoint. -/
structure Laminar (size : Nat) (loops : List NaturalLoop) : Prop where
  sorted : loops.Pairwise fun k l => k.header < l.header
  sorted_body : forall l, l ∈ loops -> l.body.Pairwise (· < ·)
  lt_size : forall l, l ∈ loops -> forall p, p ∈ l.body -> p < size
  header_mem : forall l, l ∈ loops -> l.header ∈ l.body
  header_le : forall l, l ∈ loops -> forall p, p ∈ l.body -> l.header ≤ p
  nested : forall k l, k ∈ loops -> l ∈ loops -> k.header < l.header ->
    forall p, p ∈ k.body -> p ∈ l.body -> l.body ⊆ k.body

def Holds (loops : List NaturalLoop) (i : LoopId) (p : Nat) : Prop :=
  exists l, loops[i]? = some l ∧ p ∈ l.body

namespace Laminar

variable (h : Laminar size loops)
include h

theorem header_lt (hk : loops[i]? = some k) (hl : loops[j]? = some l) (hij : i < j) :
    k.header < l.header := by
  rcases List.getElem?_eq_some_iff.mp hk with ⟨hi, rfl⟩
  rcases List.getElem?_eq_some_iff.mp hl with ⟨hj, rfl⟩
  exact List.pairwise_iff_getElem.mp h.sorted i j hi hj hij

/-- A loop holds no header of a loop with a smaller number. -/
theorem le_of_holds_header (hl : loops[i]? = some l) (hj : Holds loops j l.header) : j ≤ i := by
  by_contra hlt
  rcases hj with ⟨k, hk, hmem⟩
  have hheader := h.header_lt hl hk (Nat.lt_of_not_le hlt)
  have hle := h.header_le k (List.mem_of_getElem? hk) _ hmem
  lia

/-- Of two loops that share a position the one with the greater number lies in the other. -/
theorem subset_of_le (hk : loops[i]? = some k) (hl : loops[j]? = some l) (hij : i ≤ j)
    (hpk : p ∈ k.body) (hpl : p ∈ l.body) : l.body ⊆ k.body := by
  by_cases heq : i = j
  · subst heq
    rw [hk] at hl
    injection hl with hkl
    rw [hkl]
    exact List.Subset.refl _
  · exact h.nested k l (List.mem_of_getElem? hk) (List.mem_of_getElem? hl)
      (h.header_lt hk hl (by lia)) p hpk hpl

theorem length_lt_of_lt (hk : loops[i]? = some k) (hl : loops[j]? = some l) (hij : i < j)
    (hpk : p ∈ k.body) (hpl : p ∈ l.body) : l.body.length < k.body.length := by
  have hsub := h.subset_of_le hk hl (le_of_lt hij) hpk hpl
  have hheader : k.header ∉ l.body := by
    intro hmem
    have hle := h.le_of_holds_header hk ⟨l, hl, hmem⟩
    lia
  have hnodup : (k.header :: l.body).Nodup :=
    List.nodup_cons.mpr ⟨hheader, (h.sorted_body l (List.mem_of_getElem? hl)).imp ne_of_lt⟩
  have hsub' : k.header :: l.body ⊆ k.body :=
    List.cons_subset.mpr ⟨h.header_mem k (List.mem_of_getElem? hk), hsub⟩
  exact (hnodup.subperm hsub').length_le

theorem holds_header (hl : loops[i]? = some l) : Holds loops i l.header :=
  ⟨l, hl, h.header_mem l (List.mem_of_getElem? hl)⟩

/-- What holds a position of a loop with a greater number holds its header. -/
theorem holds_header_of_le (hl : loops[j]? = some l) (hp : p ∈ l.body)
    (hi : Holds loops i p) (hij : i ≤ j) : Holds loops i l.header := by
  rcases hi with ⟨k, hk, hpk⟩
  exact ⟨k, hk, h.subset_of_le hk hl hij hpk hp (h.header_mem l (List.mem_of_getElem? hl))⟩

/-- What holds the header of a loop holds its whole body. -/
theorem holds_of_holds_header (hl : loops[j]? = some l) (hp : p ∈ l.body)
    (hi : Holds loops i l.header) : Holds loops i p := by
  have hij := h.le_of_holds_header hl hi
  rcases hi with ⟨k, hk, hheader⟩
  have hsub := h.subset_of_le hk hl hij hheader (h.header_mem l (List.mem_of_getElem? hl))
  exact ⟨k, hk, hsub hp⟩

/-!
## Owners and parents
-/

section

variable (p) (among : LoopId -> Prop)
  (hholds : forall j k, loops[j]? = some k -> (holds k j = true <-> among j ∧ p ∈ k.body))
include hholds

omit h in
theorem smallest?_eq_none_iff :
    smallest? loops holds = none <-> forall j, among j -> ¬ Holds loops j p := by
  rw [smallest?_eq_none]
  constructor
  · intro hnone j hj hp
    rcases hp with ⟨k, hk, hpk⟩
    have htrue := (hholds j k hk).mpr ⟨hj, hpk⟩
    rw [hnone j k hk] at htrue
    cases htrue
  · intro hnone j k hk
    by_contra htrue
    rw [Bool.not_eq_false, hholds j k hk] at htrue
    exact hnone j htrue.1 ⟨k, hk, htrue.2⟩

/-- The smallest of some loops that hold a position is the last of them. -/
theorem smallest?_eq_some_iff :
    smallest? loops holds = some i <->
      (among i ∧ Holds loops i p) ∧ forall j, among j -> Holds loops j p -> j ≤ i := by
  constructor
  · intro hi
    rcases smallest?_spec hi with ⟨l, hl, hli, hleast⟩
    rcases (hholds i l hl).mp hli with ⟨hamong, hpl⟩
    refine ⟨⟨hamong, l, hl, hpl⟩, fun j hj hp => ?_⟩
    by_contra hlt
    rcases hp with ⟨k, hk, hpk⟩
    have hle := hleast j k hk ((hholds j k hk).mpr ⟨hj, hpk⟩)
    have hlen := h.length_lt_of_lt hl hk (Nat.lt_of_not_le hlt) hpl hpk
    lia
  · intro hlast
    rcases hlast with ⟨⟨hamong, l, hl, hpl⟩, hlast⟩
    cases hsmallest : smallest? loops holds with
    | none =>
        have hnone := (smallest?_eq_none_iff p among hholds).mp hsmallest i hamong
        exact absurd ⟨l, hl, hpl⟩ hnone
    | some j =>
        rcases smallest?_spec hsmallest with ⟨k, hk, hkj, hleast⟩
        rcases (hholds j k hk).mp hkj with ⟨hj, hpk⟩
        have hji := hlast j hj ⟨k, hk, hpk⟩
        have hle := hleast i l hl ((hholds i l hl).mpr ⟨hamong, hpl⟩)
        by_contra hne
        have hlen := h.length_lt_of_lt hk hl
          (Nat.lt_of_le_of_ne hji fun heq => hne (by rw [heq])) hpk hpl
        lia

end

omit h in
theorem owner?_eq_none : owner? loops p = none <-> forall i, ¬ Holds loops i p := by
  rw [owner?, smallest?_eq_none_iff p (fun _ => True)]
  · simp
  · simp

/-- The owner of a position is the last loop that holds it. -/
theorem owner?_eq_some :
    owner? loops p = some i <-> Holds loops i p ∧ forall j, Holds loops j p -> j ≤ i := by
  rw [owner?, h.smallest?_eq_some_iff p (fun _ => True)]
  · simp
  · simp

theorem parent_holds_iff (hl : loops[i]? = some l) (hk : loops[j]? = some k) :
    (j != i && k.body.contains l.header && !l.body.contains k.header) = true <->
      j < i ∧ l.header ∈ k.body := by
  simp only [Bool.and_eq_true, bne_iff_ne, Bool.not_eq_true', List.contains_eq_mem,
    decide_eq_true_eq, decide_eq_false_iff_not]
  constructor
  · intro hcase
    rcases hcase with ⟨⟨hne, hmem⟩, _⟩
    exact ⟨Nat.lt_of_le_of_ne (h.le_of_holds_header hl ⟨k, hk, hmem⟩) hne, hmem⟩
  · intro hcase
    rcases hcase with ⟨hlt, hmem⟩
    refine ⟨⟨ne_of_lt hlt, hmem⟩, fun hheader => ?_⟩
    have hle := h.le_of_holds_header hk ⟨l, hl, hheader⟩
    lia

theorem parent?_eq_none (hl : loops[i]? = some l) :
    parent? loops i l = none <-> forall j, j < i -> ¬ Holds loops j l.header :=
  smallest?_eq_none_iff l.header (· < i) fun _ _ hk => h.parent_holds_iff hl hk

/-- The parent of a loop is the last loop before it that holds its header. -/
theorem parent?_eq_some (hl : loops[i]? = some l) :
    parent? loops i l = some j <->
      (j < i ∧ Holds loops j l.header) ∧
        forall j', j' < i -> Holds loops j' l.header -> j' ≤ j :=
  h.smallest?_eq_some_iff l.header (· < i) fun _ _ hk => h.parent_holds_iff hl hk

end Laminar
end NaturalLoop
end LoopNest
