import LoopNest.Tir.Module
import Mathlib.Algebra.Ring.Nat

/-!
# Spans that tile a table

Spans tile a table when they follow one another from its start to its end.  Then the runs
that they cover, one after the other, are the table, and the spans are determined by their
sizes.
-/

namespace LoopNest
namespace Tir
namespace Span

def size (s : Span) : Nat :=
  s.stop - s.start

/-- The spans follow one another from `start` to `stop`. -/
def Tiles : Nat -> List Span -> Nat -> Prop
  | start, [], stop => start = stop
  | start, s :: spans, stop => s.start = start ∧ s.start ≤ s.stop ∧ Tiles s.stop spans stop

variable {alpha beta : Type} {s : Span} {spans : List Span} {a b c k i : Nat} {xs ys : List alpha}

/-!
## Runs of a table
-/

theorem getElem?_slice (h : i < s.size) : (s.slice xs)[i]? = xs[s.start + i]? := by
  unfold size at h
  rw [slice, List.getElem?_take_of_lt h, List.getElem?_drop]

theorem getElem?_slice_sub (hstart : s.start ≤ i) (hstop : i < s.stop) :
    (s.slice xs)[i - s.start]? = xs[i]? := by
  rw [getElem?_slice (Nat.sub_lt_sub_right hstart hstop), Nat.add_sub_cancel' hstart]

theorem slice_sublist (s : Span) (xs : List alpha) : (s.slice xs).Sublist xs :=
  (List.take_sublist _ _).trans (List.drop_sublist _ _)

theorem slice_of_eq (h : s.start = s.stop) : s.slice xs = [] := by
  rw [slice, h, Nat.sub_self, List.take_zero]

theorem length_slice (h : s.stop ≤ xs.length) : (s.slice xs).length = s.size := by
  rw [slice, List.length_take, List.length_drop, size]
  omega

theorem slice_map (f : alpha -> beta) (s : Span) (xs : List alpha) :
    s.slice (xs.map f) = (s.slice xs).map f := by
  rw [slice, slice, ← List.map_drop, ← List.map_take]

theorem slice_append_left (h : s.stop ≤ xs.length) : s.slice (xs ++ ys) = s.slice xs := by
  by_cases hs : s.start ≤ xs.length
  · rw [slice, slice, List.drop_append_of_le_length hs, List.take_append_of_le_length]
    rw [List.length_drop]
    omega
  · have hzero : s.stop - s.start = 0 := by omega
    rw [slice, slice, hzero, List.take_zero, List.take_zero]

theorem slice_shift_append (s : Span) (xs ys : List alpha) :
    (s.shift xs.length).slice (xs ++ ys) = s.slice ys := by
  have hsize : s.stop + xs.length - (s.start + xs.length) = s.stop - s.start := by omega
  simp only [slice, shift, hsize]
  rw [Nat.add_comm, List.drop_length_add_append]

theorem slice_whole (xs : List alpha) : (Span.mk 0 xs.length).slice xs = xs := by
  simp [slice]

/-!
## Tilings
-/

theorem Tiles.le (h : Tiles a spans b) : a ≤ b := by
  induction spans generalizing a with
  | nil => exact Nat.le_of_eq h
  | cons s spans ih =>
      rcases h with ⟨rfl, hle, hrest⟩
      exact Nat.le_trans hle (ih hrest)

theorem Tiles.bounds (h : Tiles a spans b) (hs : s ∈ spans) :
    a ≤ s.start ∧ s.start ≤ s.stop ∧ s.stop ≤ b := by
  induction spans generalizing a with
  | nil => cases hs
  | cons t spans ih =>
      rcases h with ⟨rfl, hle, hrest⟩
      rcases List.mem_cons.mp hs with rfl | hs
      · exact ⟨Nat.le_refl _, hle, hrest.le⟩
      · rcases ih hrest hs with ⟨hstart, hrest⟩
        exact ⟨Nat.le_trans hle hstart, hrest⟩

theorem Tiles.exists_mem (h : Tiles a spans b) (ha : a ≤ i) (hb : i < b) :
    exists s, s ∈ spans ∧ s.start ≤ i ∧ i < s.stop := by
  induction spans generalizing a with
  | nil =>
      cases h
      omega
  | cons s spans ih =>
      rcases h with ⟨rfl, _, hrest⟩
      by_cases hi : i < s.stop
      · exact ⟨s, List.mem_cons_self, ha, hi⟩
      · rcases ih hrest (by omega) with ⟨t, ht, hbounds⟩
        exact ⟨t, List.mem_cons_of_mem s ht, hbounds⟩

theorem tiles_append {ts : List Span} :
    Tiles a (spans ++ ts) c <-> exists b, Tiles a spans b ∧ Tiles b ts c := by
  induction spans generalizing a with
  | nil =>
      constructor
      · exact fun h => ⟨a, rfl, h⟩
      · rintro ⟨b, rfl, h⟩
        exact h
  | cons s spans ih =>
      constructor
      · rintro ⟨hstart, hle, hrest⟩
        rcases ih.mp hrest with ⟨b, hleft, hright⟩
        exact ⟨b, ⟨hstart, hle, hleft⟩, hright⟩
      · rintro ⟨b, ⟨hstart, hle, hleft⟩, hright⟩
        exact ⟨hstart, hle, ih.mpr ⟨b, hleft, hright⟩⟩

theorem Tiles.shift (h : Tiles a spans b) (k : Nat) :
    Tiles (a + k) (spans.map (Span.shift k)) (b + k) := by
  induction spans generalizing a with
  | nil =>
      cases h
      rfl
  | cons s spans ih =>
      rcases h with ⟨rfl, hle, hrest⟩
      exact ⟨rfl, Nat.add_le_add_right hle k, ih hrest⟩

/-- Two tilings after each other tile two tables after each other. -/
theorem Tiles.join {ts : List Span} (h : Tiles 0 spans b) (ht : Tiles 0 ts c) :
    Tiles 0 (spans ++ ts.map (Span.shift b)) (b + c) := by
  have hshift := ht.shift b
  rw [Nat.zero_add, Nat.add_comm] at hshift
  exact tiles_append.mpr ⟨b, h, hshift⟩

theorem tiles_consecutive (a : Nat) (sizes : List Nat) :
    Tiles a (consecutive a sizes) (a + sizes.sum) := by
  induction sizes generalizing a with
  | nil => rfl
  | cons size sizes ih =>
      have hrest := ih (a + size)
      rw [Nat.add_assoc] at hrest
      exact ⟨rfl, Nat.le_add_right a size, hrest⟩

/-- The spans of a tiling are determined by their sizes. -/
theorem Tiles.eq_of_sizes {ts : List Span} (h : Tiles a spans b) (ht : Tiles a ts c)
    (hsizes : spans.map size = ts.map size) : spans = ts := by
  induction spans generalizing a ts with
  | nil => exact (List.map_eq_nil_iff.mp hsizes.symm).symm
  | cons s spans ih =>
      cases ts with
      | nil => cases hsizes
      | cons t ts =>
          rcases h with ⟨hs, hsle, hrest⟩
          rcases ht with ⟨ht, htle, hrest'⟩
          rw [List.map_cons, List.map_cons, List.cons.injEq] at hsizes
          have hstop : s.stop = t.stop := by
            have hsize := hsizes.1
            unfold size at hsize
            omega
          have hst : s = t := by
            cases s
            cases t
            simp_all
          rw [hst] at hrest
          rw [hst, ih hrest hrest' hsizes.2]

theorem slice_append_slice (hab : a ≤ b) (hbc : b ≤ c) (xs : List alpha) :
    (Span.mk a b).slice xs ++ (Span.mk b c).slice xs = (Span.mk a c).slice xs := by
  have hc : c - a = (b - a) + (c - b) := by omega
  simp only [slice]
  rw [hc, List.take_add, List.drop_drop, Nat.add_sub_cancel' hab]

/-- The runs of a tiling are one run after the other. -/
theorem Tiles.flatMap_slice (h : Tiles a spans b) (xs : List alpha) :
    (spans.flatMap fun s => s.slice xs) = (Span.mk a b).slice xs := by
  induction spans generalizing a with
  | nil =>
      cases h
      simp [slice]
  | cons s spans ih =>
      rcases h with ⟨rfl, hle, hrest⟩
      rw [List.flatMap_cons, ih hrest]
      exact slice_append_slice hle hrest.le xs

/-- The runs of a tiling of a table are the table. -/
theorem Tiles.flatMap_slice_whole (h : Tiles 0 spans xs.length) :
    (spans.flatMap fun s => s.slice xs) = xs := by
  rw [h.flatMap_slice, slice_whole]

/-!
## Consecutive spans
-/

theorem map_size_consecutive (a : Nat) (sizes : List Nat) :
    (consecutive a sizes).map size = sizes := by
  induction sizes generalizing a with
  | nil => rfl
  | cons size sizes ih =>
      rw [consecutive, List.map_cons, ih, Span.size, Nat.add_sub_cancel_left]

@[simp] theorem length_consecutive (a : Nat) (sizes : List Nat) :
    (consecutive a sizes).length = sizes.length := by
  rw [← List.length_map size, map_size_consecutive]

theorem map_slice_consecutive (before : List alpha) (parts : List (List alpha))
    (after : List alpha) :
    ((consecutive before.length (parts.map List.length)).map fun s =>
      s.slice (before ++ parts.flatten ++ after)) = parts := by
  induction parts generalizing before with
  | nil => rfl
  | cons part parts ih =>
      rw [List.map_cons, consecutive, List.map_cons, List.flatten_cons]
      have hrest := ih (before ++ part)
      rw [List.length_append] at hrest
      have hpart : (Span.mk before.length (before.length + part.length)).slice
          (before ++ (part ++ parts.flatten) ++ after) = part := by
        simp [slice]
      rw [hpart]
      simpa using hrest

/-- Consecutive spans cut a joined list, from its start, back into its parts. -/
theorem map_slice_flatten (parts : List (List alpha)) :
    ((consecutive 0 (parts.map List.length)).map fun s => s.slice parts.flatten) = parts := by
  have h := map_slice_consecutive [] parts []
  rwa [List.nil_append, List.append_nil] at h

end Span
end Tir
end LoopNest
