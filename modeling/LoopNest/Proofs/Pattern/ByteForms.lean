import LoopNest.Proofs.Pattern.Sets
import Mathlib.Data.List.Forall2

/-!
# Byte forms of sets

The byte forms of a set stand for the bytes of its members and for nothing else.

A range becomes one byte form if every place of its bytes can be chosen on its own.  That is so
if the range fills whole blocks or stays inside of one, for the blocks of all lengths; so it is
cut where it does neither.
-/

namespace LoopNest
namespace Pattern

/-!
## Blocks
-/

/-- The lengths of blocks: characters whose bytes differ in the last place, in the last two places
and in the last three places. -/
inductive IsBlock : Nat -> Prop where
  | one : IsBlock 64
  | two : IsBlock 4096
  | three : IsBlock 262144

/-- The range fills whole blocks, or it stays inside of one. -/
def Aligned (block : Nat) (r : Range) : Prop :=
  r.low / block = r.high / block ∨ (r.low % block = 0 ∧ (r.high + 1) % block = 0)

section Blocks

variable {r s : Range} {low stop block n : Nat}

theorem covers_between : Covers (between low stop) n <-> low ≤ n ∧ n < stop := by
  rw [between]
  split
  · rw [covers_cons, or_iff_left not_covers_nil, Range.Has]
    simp only []
    omega
  · rw [iff_false_left not_covers_nil]
    omega

theorem mem_between (h : r ∈ between low stop) :
    r.low = low ∧ r.high + 1 = stop ∧ r.low ≤ r.high := by
  rw [between] at h
  split at h
  · rename_i hlt
    cases List.mem_singleton.mp h
    exact ⟨rfl, Nat.sub_add_cancel (Nat.zero_lt_of_lt hlt), Nat.le_sub_one_of_lt hlt⟩
  · cases h

theorem covers_cutAtBlocks (hblock : IsBlock block) (hr : r.low ≤ r.high) :
    Covers (cutAtBlocks block r) n <-> r.Has n := by
  rw [cutAtBlocks]
  split
  · rw [covers_cons, or_iff_left not_covers_nil]
  · simp only [covers_append, covers_between, Range.Has]
    cases hblock <;> omega

/-- A part of a range whose ends lie in it. -/
structure Range.Part (s r : Range) : Prop where
  nonempty : s.low ≤ s.high
  low_le : r.low ≤ s.low
  high_le : s.high ≤ r.high

theorem part_of_mem_cutAtBlocks (hblock : IsBlock block) (hr : r.low ≤ r.high)
    (h : s ∈ cutAtBlocks block r) : s.Part r ∧ Aligned block s := by
  rw [cutAtBlocks] at h
  split at h
  · rename_i hsame
    cases List.mem_singleton.mp h
    exact ⟨⟨hr, Nat.le_refl _, Nat.le_refl _⟩, Or.inl hsame⟩
  · rw [List.mem_append, List.mem_append] at h
    have hends : s.low ≤ s.high ∧ r.low ≤ s.low ∧ s.high ≤ r.high ∧ Aligned block s := by
      unfold Aligned
      rcases h with (h | h) | h
      · have hs := mem_between h
        cases hblock <;> omega
      · have hs := mem_between h
        cases hblock <;> omega
      · have hs := mem_between h
        cases hblock <;> omega
    exact ⟨⟨hends.1, hends.2.1, hends.2.2.1⟩, hends.2.2.2⟩

/-- Cutting at longer blocks does not cut through shorter ones. -/
theorem aligned_of_mem_cutAtBlocks {shorter : Nat} (hshorter : IsBlock shorter)
    (hblock : IsBlock block) (hle : shorter ≤ block) (hr : r.low ≤ r.high)
    (haligned : Aligned shorter r) (h : s ∈ cutAtBlocks block r) : Aligned shorter s := by
  rw [cutAtBlocks] at h
  split at h
  · cases List.mem_singleton.mp h
    exact haligned
  · rw [List.mem_append, List.mem_append] at h
    have hfilled : r.low % shorter = 0 ∧ (r.high + 1) % shorter = 0 := by
      refine haligned.resolve_left fun hsame => ?_
      cases hshorter <;> cases hblock <;> omega
    refine Or.inr ?_
    rcases h with (h | h) | h
    · have hs := mem_between h
      cases hshorter <;> cases hblock <;> omega
    · have hs := mem_between h
      cases hshorter <;> cases hblock <;> omega
    · have hs := mem_between h
      cases hshorter <;> cases hblock <;> omega

end Blocks

/-!
## Digits

The bytes of a code point are its digits in base 64, each with a mark.
-/

section Digits

variable {r : Range} {m n : Nat}

def Range.front (r : Range) : Range :=
  ⟨r.low / 64, r.high / 64⟩

def Range.digit (r : Range) : Range :=
  ⟨r.low % 64, r.high % 64⟩

theorem has_iff_digits (h : Aligned 64 r) :
    r.Has n <-> r.front.Has (n / 64) ∧ r.digit.Has (n % 64) := by
  unfold Aligned at h
  simp only [Range.Has, Range.front, Range.digit]
  omega

theorem aligned_front_two (h : Aligned 4096 r) : Aligned 64 r.front := by
  unfold Aligned at h ⊢
  simp only [Range.front]
  omega

theorem aligned_front_three (h : Aligned 262144 r) : Aligned 4096 r.front := by
  unfold Aligned at h ⊢
  simp only [Range.front]
  omega

theorem bytesOf_one (h : n < 0x80) : bytesOf n = [n] :=
  if_pos h

theorem bytesOf_two (hlow : 0x80 ≤ n) (hhigh : n < 0x800) :
    bytesOf n = [0xc0 + n / 64, 0x80 + n % 64] := by
  rw [bytesOf, if_neg (by omega), if_pos hhigh]

theorem bytesOf_three (hlow : 0x800 ≤ n) (hhigh : n < 0x10000) :
    bytesOf n = [0xe0 + n / 64 / 64, 0x80 + n / 64 % 64, 0x80 + n % 64] := by
  rw [bytesOf, if_neg (by omega), if_neg (by omega), if_pos hhigh, Nat.div_div_eq_div_mul]

theorem bytesOf_four (hlow : 0x10000 ≤ n) : bytesOf n =
    [0xf0 + n / 64 / 64 / 64, 0x80 + n / 64 / 64 % 64, 0x80 + n / 64 % 64, 0x80 + n % 64] := by
  rw [bytesOf, if_neg (by omega), if_neg (by omega), if_neg (by omega)]
  simp only [Nat.div_div_eq_div_mul, Nat.reduceMul]

theorem length_bytesOf (n : Nat) : (bytesOf n).length =
    if n < 0x80 then 1 else if n < 0x800 then 2 else if n < 0x10000 then 3 else 4 := by
  unfold bytesOf
  split
  · rfl
  · split
    · rfl
    · split <;> rfl

/-- Numbers with equally many bytes lie on the same side of the bounds. -/
theorem sides_of_length (h : (bytesOf m).length = (bytesOf n).length) :
    (m < 0x80 <-> n < 0x80) ∧ (m < 0x800 <-> n < 0x800) ∧ (m < 0x10000 <-> n < 0x10000) := by
  rw [length_bytesOf, length_bytesOf] at h
  split at h <;> split at h <;> (try split at h) <;> (try split at h) <;> (try split at h) <;>
    (try split at h) <;> omega

theorem length_bytesOf_le (h : m ≤ n) : (bytesOf m).length ≤ (bytesOf n).length := by
  rw [length_bytesOf, length_bytesOf]
  split <;> split <;> (try split) <;> (try split) <;> (try split) <;> (try split) <;> omega

end Digits

/-!
## Byte forms
-/

/-- The bytes lie in the ranges of a form, one after the other. -/
def ByteForm.Reads (form : ByteForm) (bytes : List Nat) : Prop :=
  List.Forall₂ Range.Has form bytes

section Forms

variable {r s : Range} {form : ByteForm} {n : Nat}

/-- A range of characters with several bytes, whose places can be chosen one by one. -/
structure Straight (r : Range) : Prop where
  wide : 0x80 ≤ r.low
  length_eq : (bytesOf r.low).length = (bytesOf r.high).length
  one : Aligned 64 r
  two : Aligned 4096 r
  three : Aligned 262144 r

theorem not_has_of_length (hr : (bytesOf r.low).length = (bytesOf r.high).length)
    (hn : (bytesOf n).length ≠ (bytesOf r.low).length) : ¬ r.Has n := by
  intro h
  have hlow := length_bytesOf_le h.1
  have hhigh := length_bytesOf_le h.2
  omega

theorem not_reads_of_length (hr : (bytesOf r.low).length = (bytesOf r.high).length)
    (hn : (bytesOf n).length ≠ (bytesOf r.low).length) : ¬ (formOf r).Reads (bytesOf n) := by
  intro h
  have hlength := h.length_eq
  rw [formOf, List.length_zipWith, ← hr, Nat.min_self] at hlength
  exact hn hlength.symm

theorem reads_formOf_ascii (hlow : r.low < 0x80) (hhigh : r.high < 0x80) :
    (formOf r).Reads (bytesOf n) <-> r.Has n := by
  have hlength : (bytesOf r.low).length = (bytesOf r.high).length := by
    rw [bytesOf_one hlow, bytesOf_one hhigh]
    rfl
  by_cases hn : n < 0x80
  · rw [formOf, bytesOf_one hlow, bytesOf_one hhigh, bytesOf_one hn]
    simp [ByteForm.Reads]
  · have hlonger : (bytesOf n).length ≠ (bytesOf r.low).length := fun heq =>
      hn ((sides_of_length heq).1.mpr hlow)
    exact iff_of_false (not_reads_of_length hlength hlonger) (not_has_of_length hlength hlonger)

theorem Straight.reads_formOf (h : Straight r) :
    (formOf r).Reads (bytesOf n) <-> r.Has n := by
  by_cases hn : (bytesOf n).length = (bytesOf r.low).length
  · have hwide := h.wide
    have hlow := sides_of_length hn
    have hhigh := sides_of_length (hn.trans h.length_eq)
    rw [has_iff_digits h.one]
    by_cases h800 : n < 0x800
    · rw [formOf, bytesOf_two (by omega) (by omega), bytesOf_two (by omega) (by omega),
        bytesOf_two (by omega) h800]
      simp [ByteForm.Reads, Range.Has, Range.front, Range.digit]
    · by_cases h10000 : n < 0x10000
      · rw [formOf, bytesOf_three (by omega) (by omega), bytesOf_three (by omega) (by omega),
          bytesOf_three (by omega) h10000, has_iff_digits (aligned_front_two h.two)]
        simp [ByteForm.Reads, Range.Has, Range.front, Range.digit, and_assoc]
      · rw [formOf, bytesOf_four (by omega), bytesOf_four (by omega), bytesOf_four (by omega),
          has_iff_digits (aligned_front_two h.two),
          has_iff_digits (aligned_front_two (aligned_front_three h.three))]
        simp [ByteForm.Reads, Range.Has, Range.front, Range.digit, and_assoc]
  · exact iff_of_false (not_reads_of_length h.length_eq hn) (not_has_of_length h.length_eq hn)

/-!
### Cutting
-/

/-- Ranges that are not empty and lie in one of the ranges that have equally many bytes, cut at
the blocks of some lengths. -/
structure Cut (blocks : List Nat) (s : Range) : Prop where
  nonempty : s.low ≤ s.high
  inside : exists w, w ∈ wideRanges ∧ w.low ≤ s.low ∧ s.high ≤ w.high
  aligned : forall block, block ∈ blocks -> Aligned block s

theorem length_of_mem_wideRanges : forall w, w ∈ wideRanges ->
    0x80 ≤ w.low ∧ (bytesOf w.low).length = (bytesOf w.high).length := by
  decide

theorem Cut.straight (h : Cut [262144, 4096, 64] s) : Straight s := by
  rcases h.inside with ⟨w, hw, hlow, hhigh⟩
  have hends := length_of_mem_wideRanges w hw
  have hfirst := length_bytesOf_le hlow
  have hmiddle := length_bytesOf_le h.nonempty
  have hlast := length_bytesOf_le hhigh
  exact ⟨Nat.le_trans hends.1 hlow, by omega, h.aligned 64 (by simp), h.aligned 4096 (by simp),
    h.aligned 262144 (by simp)⟩

theorem cut_of_mem_cutAtBlocks {block : Nat} {blocks : List Nat} (hblock : IsBlock block)
    (hblocks : forall shorter, shorter ∈ blocks -> IsBlock shorter ∧ shorter ≤ block)
    (hr : Cut blocks r) (h : s ∈ cutAtBlocks block r) : Cut (block :: blocks) s := by
  have hpart := part_of_mem_cutAtBlocks hblock hr.nonempty h
  rcases hr.inside with ⟨w, hw, hlow, hhigh⟩
  refine ⟨hpart.1.nonempty, ⟨w, hw, Nat.le_trans hlow hpart.1.low_le,
    Nat.le_trans hpart.1.high_le hhigh⟩, ?_⟩
  intro shorter hshorter
  rcases List.mem_cons.mp hshorter with rfl | hshorter
  · exact hpart.2
  · have hle := hblocks shorter hshorter
    exact aligned_of_mem_cutAtBlocks hle.1 hblock hle.2 hr.nonempty (hr.aligned shorter hshorter) h

/-- The ranges that are left after they have been cut once more. -/
theorem cutAll {ranges : List Range} {block : Nat} {blocks : List Nat} (hblock : IsBlock block)
    (hblocks : forall shorter, shorter ∈ blocks -> IsBlock shorter ∧ shorter ≤ block)
    (hranges : forall r, r ∈ ranges -> Cut blocks r) :
    (forall s, s ∈ ranges.flatMap (cutAtBlocks block) -> Cut (block :: blocks) s) ∧
      (Covers (ranges.flatMap (cutAtBlocks block)) n <-> Covers ranges n) := by
  constructor
  · intro s hs
    rcases List.mem_flatMap.mp hs with ⟨r, hr, hs⟩
    exact cut_of_mem_cutAtBlocks hblock hblocks (hranges r hr) hs
  · rw [covers_flatMap]
    refine exists_congr fun r => and_congr_right fun hr => ?_
    exact covers_cutAtBlocks hblock (hranges r hr).nonempty

theorem cut_overlap (h : s ∈ wideRanges.filterMap (CharSet.overlap? r)) : Cut [] s := by
  rcases List.mem_filterMap.mp h with ⟨w, hw, hoverlap⟩
  have hs := CharSet.overlap?_eq_some hoverlap
  refine ⟨hs.2.2, ⟨w, hw, ?_, ?_⟩, nofun⟩
  · rw [hs.1]
    exact Nat.le_max_right _ _
  · rw [hs.2.1]
    exact Nat.min_le_right _ _

theorem covers_wideRanges (hn : n.isValidChar) : Covers wideRanges n <-> 0x80 ≤ n := by
  unfold Nat.isValidChar at hn
  simp only [wideRanges, covers_cons, not_covers_nil, or_false, Range.Has]
  omega

/-!
### Sets
-/

theorem exists_formsOfRange (hn : n.isValidChar) :
    (exists form, form ∈ formsOfRange r ∧ form.Reads (bytesOf n)) <-> r.Has n := by
  have hone := @cutAll n _ 64 [] .one nofun fun s => @cut_overlap r s
  have htwo := @cutAll n _ 4096 [64] .two (by simp [IsBlock.one]) hone.1
  have hthree := @cutAll n _ 262144 [4096, 64] .three (by simp [IsBlock.one, IsBlock.two]) htwo.1
  have hascii : forall s, s ∈ (CharSet.overlap? r ⟨0, 0x7f⟩).toList ->
      s.low < 0x80 ∧ s.high < 0x80 := by
    intro s hs
    have hends := CharSet.overlap?_eq_some (Option.mem_toList.mp hs)
    simp only [] at hends
    omega
  have hcovers : Covers ((CharSet.overlap? r ⟨0, 0x7f⟩).toList ++
      (((wideRanges.filterMap (CharSet.overlap? r)).flatMap (cutAtBlocks 64)).flatMap
        (cutAtBlocks 4096)).flatMap (cutAtBlocks 262144)) n <-> r.Has n := by
    rw [covers_append, hthree.2, htwo.2, hone.2, CharSet.covers_overlap?, CharSet.covers_overlaps,
      covers_wideRanges hn, ← and_or_left, and_iff_left]
    simp only [Range.Has]
    omega
  rw [← hcovers, formsOfRange]
  simp only [List.mem_map]
  constructor
  · intro h
    rcases h with ⟨_, ⟨s, hs, rfl⟩, hreads⟩
    refine ⟨s, hs, ?_⟩
    rcases List.mem_append.mp hs with hs | hs
    · exact (reads_formOf_ascii (hascii s hs).1 (hascii s hs).2).mp hreads
    · exact (hthree.1 s hs).straight.reads_formOf.mp hreads
  · intro h
    rcases h with ⟨s, hs, hn⟩
    refine ⟨_, ⟨s, hs, rfl⟩, ?_⟩
    rcases List.mem_append.mp hs with hs | hs
    · exact (reads_formOf_ascii (hascii s hs).1 (hascii s hs).2).mpr hn
    · exact (hthree.1 s hs).straight.reads_formOf.mpr hn

/-- The byte forms of a set read the bytes of its members, and of no other characters. -/
theorem exists_forms {set : CharSet} {c : Char} :
    (exists form, form ∈ set.forms ∧ form.Reads (bytesOf c.toNat)) <-> set.holds c := by
  rw [CharSet.holds_iff, CharSet.forms]
  simp only [List.mem_flatMap]
  constructor
  · intro h
    rcases h with ⟨form, ⟨r, hr, hform⟩, hreads⟩
    exact ⟨r, hr, (exists_formsOfRange (CharSet.isValidChar_toNat c)).mp ⟨form, hform, hreads⟩⟩
  · intro h
    rcases h with ⟨r, hr, hc⟩
    rcases (exists_formsOfRange (CharSet.isValidChar_toNat c)).mpr hc with ⟨form, hform, hreads⟩
    exact ⟨form, ⟨r, hr, hform⟩, hreads⟩

end Forms

end Pattern
end LoopNest
