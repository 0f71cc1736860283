import LoopNest.Pattern.CharSet
import Mathlib.Data.List.Basic

/-!
# Members of sets

The operations on sets of characters are operations on lists of ranges.  Here it is shown what
they do to the members, and that the ranges of a set stay in order and apart from each other.
-/

namespace LoopNest
namespace Pattern

/-!
## Ranges
-/

def Range.Has (r : Range) (n : Nat) : Prop :=
  r.low ≤ n ∧ n ≤ r.high

theorem Range.has_toNat {c d : Char} : Range.Has ⟨d.toNat, d.toNat⟩ c.toNat <-> c = d := by
  rw [← Char.toNat_inj, eq_comm, Nat.eq_iff_le_and_ge]
  exact Iff.rfl

def Covers (ranges : List Range) (n : Nat) : Prop :=
  exists r, r ∈ ranges ∧ r.Has n

section Covers

variable {r s : Range} {ranges others : List Range} {n : Nat}

@[simp] theorem not_covers_nil : ¬ Covers [] n := by
  intro h
  rcases h with ⟨r, hr, _⟩
  cases hr

@[simp] theorem covers_cons : Covers (r :: ranges) n <-> r.Has n ∨ Covers ranges n := by
  simp [Covers]

@[simp] theorem covers_append :
    Covers (ranges ++ others) n <-> Covers ranges n ∨ Covers others n := by
  simp only [Covers, List.mem_append, or_and_right, exists_or]

theorem covers_flatMap {f : Range -> List Range} :
    Covers (ranges.flatMap f) n <-> exists r, r ∈ ranges ∧ Covers (f r) n := by
  simp only [Covers, List.mem_flatMap]
  constructor
  · intro h
    rcases h with ⟨s, ⟨r, hr, hs⟩, hn⟩
    exact ⟨r, hr, s, hs, hn⟩
  · intro h
    rcases h with ⟨r, hr, s, hs, hn⟩
    exact ⟨s, ⟨r, hr, hs⟩, hn⟩

end Covers

namespace CharSet

section Ranges

variable {first r s : Range} {more ranges others : List Range} {n : Nat}

/-!
### Ranges in order
-/

theorem insertRange_perm : (insertRange r ranges).Perm (r :: ranges) := by
  induction ranges with
  | nil => exact .refl _
  | cons s ranges ih =>
      rw [insertRange]
      split
      · exact .refl _
      · exact (ih.cons s).trans (.swap r s ranges)

/-- The ranges begin in increasing order. -/
def Ascending (ranges : List Range) : Prop :=
  ranges.Pairwise fun r s => r.low ≤ s.low

theorem ascending_insertRange (h : Ascending ranges) : Ascending (insertRange r ranges) := by
  induction ranges with
  | nil => exact List.pairwise_singleton _ _
  | cons s ranges ih =>
      have hcons := List.pairwise_cons.mp h
      rw [insertRange]
      split
      · rename_i hle
        refine List.pairwise_cons.mpr ⟨?_, h⟩
        intro t ht
        rcases List.mem_cons.mp ht with rfl | ht
        · exact hle
        · exact Nat.le_trans hle (hcons.1 t ht)
      · rename_i hlt
        refine List.pairwise_cons.mpr ⟨?_, ih hcons.2⟩
        intro t ht
        rcases List.mem_cons.mp (insertRange_perm.mem_iff.mp ht) with rfl | ht
        · exact Nat.le_of_not_le hlt
        · exact hcons.1 t ht

theorem ascending_foldr (ranges : List Range) : Ascending (ranges.foldr insertRange []) := by
  induction ranges with
  | nil => exact .nil
  | cons r ranges ih => exact ascending_insertRange ih

theorem foldr_perm (ranges : List Range) : (ranges.foldr insertRange []).Perm ranges := by
  induction ranges with
  | nil => exact .refl _
  | cons r ranges ih => exact insertRange_perm.trans (ih.cons r)

/-!
### Joined ranges
-/

theorem ascending_joined (h : Ascending (first :: r :: more)) :
    Ascending (⟨first.low, max first.high r.high⟩ :: more) := by
  have hcons := List.pairwise_cons.mp h
  refine List.pairwise_cons.mpr ⟨?_, (List.pairwise_cons.mp hcons.2).2⟩
  intro s hs
  exact hcons.1 s (List.mem_cons_of_mem r hs)

theorem covers_joinRanges (h : Ascending (first :: more)) :
    Covers (joinRanges first more) n <-> Covers (first :: more) n := by
  induction more generalizing first with
  | nil => exact Iff.rfl
  | cons r more ih =>
      have hle : first.low ≤ r.low := (List.pairwise_cons.mp h).1 r List.mem_cons_self
      rw [joinRanges]
      split
      · rw [ih (ascending_joined h), covers_cons, covers_cons, covers_cons, ← or_assoc]
        refine or_congr_left ?_
        simp only [Range.Has]
        omega
      · rw [covers_cons, ih (List.pairwise_cons.mp h).2, covers_cons (r := first)]

theorem low_le_of_mem_joinRanges (h : Ascending (first :: more)) (hs : s ∈ joinRanges first more) :
    first.low ≤ s.low := by
  induction more generalizing first with
  | nil =>
      cases List.mem_singleton.mp hs
      exact Nat.le_refl _
  | cons r more ih =>
      rw [joinRanges] at hs
      split at hs
      · have hle := ih (ascending_joined h) hs
        exact hle
      · rcases List.mem_cons.mp hs with rfl | hs
        · exact Nat.le_refl _
        · have hcons := List.pairwise_cons.mp h
          exact Nat.le_trans (hcons.1 r List.mem_cons_self) (ih hcons.2 hs)

/-- There is a gap between any two of the ranges. -/
def Arranged (ranges : List Range) : Prop :=
  ranges.Pairwise fun r s => r.high + 1 < s.low

theorem arranged_joinRanges (h : Ascending (first :: more)) :
    Arranged (joinRanges first more) := by
  induction more generalizing first with
  | nil => exact List.pairwise_singleton _ _
  | cons r more ih =>
      rw [joinRanges]
      split
      · exact ih (ascending_joined h)
      · rename_i hgap
        have hmore := (List.pairwise_cons.mp h).2
        refine List.pairwise_cons.mpr ⟨?_, ih hmore⟩
        intro s hs
        exact Nat.lt_of_lt_of_le (Nat.lt_of_not_le hgap) (low_le_of_mem_joinRanges hmore hs)

theorem covers_arrange : Covers (arrange ranges) n <-> Covers ranges n := by
  have hsorted := ascending_foldr ranges
  have hperm : Covers (ranges.foldr insertRange []) n <-> Covers ranges n := by
    simp only [Covers, (foldr_perm ranges).mem_iff]
  rw [arrange, ← hperm]
  split
  · rename_i hnil
    rw [hnil]
  · rename_i first more hcons
    rw [hcons] at hsorted ⊢
    exact covers_joinRanges hsorted

theorem arranged_arrange (ranges : List Range) : Arranged (arrange ranges) := by
  have hsorted := ascending_foldr ranges
  rw [arrange]
  split
  · exact .nil
  · rename_i first more hcons
    rw [hcons] at hsorted
    exact arranged_joinRanges hsorted

/-!
### Parts of ranges
-/

theorem overlap?_eq_none : overlap? r s = none <-> forall n, ¬ (r.Has n ∧ s.Has n) := by
  rw [overlap?]
  simp only [Range.Has]
  split
  · rename_i hle
    refine iff_of_false nofun fun h => ?_
    exact h (max r.low s.low) (by omega)
  · exact iff_of_true rfl fun n h => by omega

theorem overlap?_eq_some {t : Range} (h : overlap? r s = some t) :
    t.low = max r.low s.low ∧ t.high = min r.high s.high ∧ t.low ≤ t.high := by
  rw [overlap?] at h
  split at h
  · cases h
    exact ⟨rfl, rfl, by assumption⟩
  · cases h

theorem covers_overlap? : Covers (overlap? r s).toList n <-> r.Has n ∧ s.Has n := by
  cases h : overlap? r s with
  | none => exact iff_of_false not_covers_nil (overlap?_eq_none.mp h n)
  | some t =>
      have ht := overlap?_eq_some h
      simp only [Option.toList_some, covers_cons, not_covers_nil, or_false, Range.Has, ht.1, ht.2.1]
      omega

/-- Between the last number in front of the gap and the first one behind it there are no
characters. -/
theorem le_before_iff {m : Nat} (hn : n.isValidChar) (hm : 0 < m) : n ≤ before m <-> n < m := by
  rw [before]
  unfold Nat.isValidChar at hn
  split <;> omega

theorem behind_le_iff {m : Nat} (hn : n.isValidChar) : behind m ≤ n <-> m < n := by
  rw [behind]
  unfold Nat.isValidChar at hn
  split <;> omega

theorem covers_cut (hn : n.isValidChar) : Covers (cut r s) n <-> r.Has n ∧ ¬ s.Has n := by
  rw [cut]
  cases h : overlap? r s with
  | none =>
      simp only [covers_cons, not_covers_nil, or_false]
      exact ⟨fun hr => ⟨hr, fun hs => overlap?_eq_none.mp h n ⟨hr, hs⟩⟩, And.left⟩
  | some t =>
      have ht := overlap?_eq_some h
      have hlow : Covers (if r.low < t.low then [⟨r.low, before t.low⟩] else []) n <->
          r.low ≤ n ∧ n < t.low := by
        split
        · simp only [covers_cons, not_covers_nil, or_false, Range.Has]
          rw [le_before_iff hn (by omega)]
        · simp only [not_covers_nil, false_iff]
          omega
      have hhigh : Covers (if t.high < r.high then [⟨behind t.high, r.high⟩] else []) n <->
          t.high < n ∧ n ≤ r.high := by
        split
        · simp only [covers_cons, not_covers_nil, or_false, Range.Has, behind_le_iff hn]
        · simp only [not_covers_nil, false_iff]
          omega
      simp only [covers_append, hlow, hhigh, Range.Has]
      omega

theorem covers_without (hn : n.isValidChar) :
    Covers (without ranges others) n <-> Covers ranges n ∧ ¬ Covers others n := by
  rw [without]
  induction others generalizing ranges with
  | nil => simp
  | cons s others ih =>
      rw [List.foldl_cons, ih, covers_flatMap, covers_cons, not_or, ← and_assoc]
      refine and_congr_left fun _ => ?_
      simp only [covers_cut hn]
      constructor
      · intro h
        rcases h with ⟨r, hr, hn, hnot⟩
        exact ⟨⟨r, hr, hn⟩, hnot⟩
      · intro h
        rcases h with ⟨⟨r, hr, hn⟩, hnot⟩
        exact ⟨r, hr, hn, hnot⟩

theorem covers_overlaps :
    Covers (ranges.filterMap (overlap? r)) n <-> r.Has n ∧ Covers ranges n := by
  rw [List.filterMap_eq_flatMap_toList, covers_flatMap]
  simp only [covers_overlap?]
  constructor
  · intro h
    rcases h with ⟨s, hs, hr, hn⟩
    exact ⟨hr, s, hs, hn⟩
  · intro h
    rcases h with ⟨hr, s, hs, hn⟩
    exact ⟨s, hs, hr, hn⟩

end Ranges

/-!
## Sets
-/

section Sets

variable {s t : CharSet} {c d : Char}

theorem isValidChar_toNat (c : Char) : c.toNat.isValidChar :=
  c.valid

theorem holds_iff : s.holds c <-> Covers s.ranges c.toNat := by
  simp only [holds, List.any_eq_true, Bool.and_eq_true, decide_eq_true_eq]
  exact Iff.rfl

theorem not_holds_of_isEmpty (h : s.isEmpty) : ¬ s.holds c := by
  rw [holds_iff, List.isEmpty_iff.mp h]
  exact not_covers_nil

theorem holds_empty : ¬ empty.holds c :=
  not_holds_of_isEmpty rfl

theorem holds_ofRanges {ranges : List Range} :
    (ofRanges ranges).holds c <-> Covers ranges c.toNat := by
  rw [holds_iff, ofRanges, covers_arrange]

theorem holds_addRange {r : Range} : (s.addRange r).holds c <-> r.Has c.toNat ∨ s.holds c := by
  rw [holds_iff, holds_iff, addRange, covers_arrange, covers_cons]

theorem holds_union : (s.union t).holds c <-> s.holds c ∨ t.holds c := by
  rw [union]
  split
  · rename_i h
    rw [Bool.or_eq_true, beq_iff_eq] at h
    refine ⟨Or.inl, fun hst => hst.elim id fun ht => ?_⟩
    rcases h with hempty | heq
    · exact absurd ht (not_holds_of_isEmpty hempty)
    · rwa [holds_iff, heq, ← holds_iff]
  · rw [holds_iff, covers_arrange, covers_append, holds_iff, holds_iff]

theorem holds_inter : (s.inter t).holds c <-> s.holds c ∧ t.holds c := by
  rw [inter]
  split
  · rename_i h
    exact iff_of_false (not_holds_of_isEmpty h) fun hst => not_holds_of_isEmpty h hst.1
  · split
    · rename_i h
      exact iff_of_false holds_empty fun hst => not_holds_of_isEmpty h hst.2
    · rw [holds_iff, covers_arrange, covers_flatMap, holds_iff, holds_iff]
      simp only [covers_overlaps]
      constructor
      · intro h
        rcases h with ⟨r, hr, hn, ht⟩
        exact ⟨⟨r, hr, hn⟩, ht⟩
      · intro h
        rcases h with ⟨⟨r, hr, hn⟩, ht⟩
        exact ⟨r, hr, hn, ht⟩

theorem holds_diff : (s.diff t).holds c <-> s.holds c ∧ ¬ t.holds c := by
  rw [diff]
  split
  · rename_i h
    rw [Bool.or_eq_true] at h
    refine ⟨fun hs => ⟨hs, ?_⟩, And.left⟩
    rcases h with h | h
    · exact absurd hs (not_holds_of_isEmpty h)
    · exact not_holds_of_isEmpty h
  · rw [holds_iff, covers_arrange, covers_without (isValidChar_toNat c), holds_iff, holds_iff]

theorem holds_symmDiff :
    (s.symmDiff t).holds c <-> (s.holds c ∧ ¬ t.holds c) ∨ (t.holds c ∧ ¬ s.holds c) := by
  rw [symmDiff, holds_diff, holds_union, holds_inter]
  by_cases hs : s.holds c <;> by_cases ht : t.holds c <;> simp [hs, ht]

theorem holds_complement {everything : List Range} :
    (s.complement everything).holds c <-> Covers everything c.toNat ∧ ¬ s.holds c := by
  rw [complement]
  split
  · rename_i h
    rw [holds_iff]
    exact ⟨fun hc => ⟨hc, not_holds_of_isEmpty h⟩, And.left⟩
  · rw [holds_iff, covers_arrange, covers_without (isValidChar_toNat c), holds_iff]

theorem covers_characters (c : Char) : Covers characters c.toNat := by
  have hc := isValidChar_toNat c
  have hle : c.toNat ≤ 0x10ffff := by
    unfold Nat.isValidChar at hc
    omega
  exact ⟨_, List.mem_singleton.mpr rfl, Nat.zero_le _, hle⟩

theorem covers_bytes {n : Nat} : Covers bytes n <-> n < 0x100 := by
  simp only [bytes, covers_cons, not_covers_nil, or_false, Range.Has]
  omega

theorem toNat_ofNatAux {n : Nat} (h : n.isValidChar) : (Char.ofNatAux n h).toNat = n :=
  rfl

theorem holds_of_only? (h : s.only? = some d) : s.holds c <-> c = d := by
  rw [only?] at h
  split at h
  · rename_i r hr
    by_cases hsame : r.low = r.high ∧ r.low.isValidChar
    · rw [dif_pos hsame] at h
      cases h
      rw [holds_iff, hr, covers_cons, or_iff_left not_covers_nil, ← Range.has_toNat,
        toNat_ofNatAux, Range.Has, Range.Has, hsame.1]
    · rw [dif_neg hsame] at h
      cases h
  · cases h

/-!
### Both cases
-/

/-- With every letter the set holds the same letter in the other case. -/
def Closed (s : CharSet) : Prop :=
  forall c d, c.toLower = d.toLower -> s.holds c -> s.holds d

/-- A set that is known to hold its letters in both cases does so. -/
def Sound (s : CharSet) : Prop :=
  s.folded -> s.Closed

theorem toNat_toLower (c : Char) :
    c.toLower.toNat = if 65 ≤ c.toNat ∧ c.toNat ≤ 90 then c.toNat + 32 else c.toNat := by
  have hupper : 'A'.val ≤ c.val ∧ c.val ≤ 'Z'.val <-> 65 ≤ c.toNat ∧ c.toNat ≤ 90 := Iff.rfl
  by_cases h : 'A'.val ≤ c.val ∧ c.val ≤ 'Z'.val
  · have hle : c.val.toNat ≤ 90 := (hupper.mp h).2
    have hsum : c.toLower.toNat = (c.val.toNat + 32) % 2 ^ 32 := congrArg Char.toNat (dif_pos h)
    rw [if_pos (hupper.mp h)]
    exact hsum.trans (Nat.mod_eq_of_lt (by omega))
  · rw [if_neg fun hc => h (hupper.mpr hc)]
    exact congrArg Char.toNat (dif_neg h)

/-- Two characters are the same letter if they are equal, or if one is the other in small. -/
theorem toLower_eq_iff : c.toLower = d.toLower <->
    c.toNat = d.toNat ∨ (65 ≤ c.toNat ∧ c.toNat ≤ 90 ∧ d.toNat = c.toNat + 32) ∨
      (65 ≤ d.toNat ∧ d.toNat ≤ 90 ∧ c.toNat = d.toNat + 32) := by
  rw [← Char.toNat_inj, toNat_toLower, toNat_toLower]
  split <;> split <;> omega

theorem covers_otherCase {r : Range} {n : Nat} : Covers (otherCase r) n <->
    (65 ≤ n ∧ n ≤ 90 ∧ r.Has (n + 32)) ∨ (97 ≤ n ∧ n ≤ 122 ∧ r.Has (n - 32)) := by
  have hcapital : Covers ((overlap? r ⟨0x61, 0x7a⟩).map fun s =>
      (⟨s.low - 32, s.high - 32⟩ : Range)).toList n <-> 65 ≤ n ∧ n ≤ 90 ∧ r.Has (n + 32) := by
    cases h : overlap? r ⟨0x61, 0x7a⟩ with
    | none =>
        have hnone := overlap?_eq_none.mp h (n + 32)
        simp only [Range.Has] at hnone
        simp only [Option.map_none, Option.toList_none, not_covers_nil, false_iff, Range.Has]
        omega
    | some t =>
        have ht := overlap?_eq_some h
        simp only [] at ht
        simp only [Option.map_some, Option.toList_some, covers_cons, not_covers_nil, or_false,
          Range.Has]
        omega
  have hsmall : Covers ((overlap? r ⟨0x41, 0x5a⟩).map fun s =>
      (⟨s.low + 32, s.high + 32⟩ : Range)).toList n <-> 97 ≤ n ∧ n ≤ 122 ∧ r.Has (n - 32) := by
    cases h : overlap? r ⟨0x41, 0x5a⟩ with
    | none =>
        have hnone := overlap?_eq_none.mp h (n - 32)
        simp only [Range.Has] at hnone
        simp only [Option.map_none, Option.toList_none, not_covers_nil, false_iff, Range.Has]
        omega
    | some t =>
        have ht := overlap?_eq_some h
        simp only [] at ht
        simp only [Option.map_some, Option.toList_some, covers_cons, not_covers_nil, or_false,
          Range.Has]
        omega
  rw [otherCase, covers_append, hcapital, hsmall]

theorem holds_foldAscii (hs : s.Sound) :
    s.foldAscii.holds c <-> exists d, c.toLower = d.toLower ∧ s.holds d := by
  rw [foldAscii]
  split
  · rename_i hfolded
    constructor
    · intro hc
      exact ⟨c, rfl, hc⟩
    · intro h
      rcases h with ⟨d, hcd, hd⟩
      exact hs hfolded d c hcd.symm hd
  · rw [holds_iff, covers_arrange, covers_append, covers_flatMap]
    simp only [covers_otherCase]
    constructor
    · intro h
      rcases h with hc | ⟨r, hr, ⟨hlow, hhigh, hn⟩ | ⟨hlow, hhigh, hn⟩⟩
      · exact ⟨c, rfl, holds_iff.mpr hc⟩
      · refine ⟨Char.ofNatAux (c.toNat + 32) (Or.inl (by omega)), ?_, holds_iff.mpr ⟨r, hr, hn⟩⟩
        rw [toLower_eq_iff, toNat_ofNatAux]
        omega
      · refine ⟨Char.ofNatAux (c.toNat - 32) (Or.inl (by omega)), ?_, holds_iff.mpr ⟨r, hr, hn⟩⟩
        rw [toLower_eq_iff, toNat_ofNatAux]
        omega
    · intro h
      rcases h with ⟨d, hcd, hd⟩
      rcases holds_iff.mp hd with ⟨r, hr, hn⟩
      rcases toLower_eq_iff.mp hcd with heq | ⟨hlow, hhigh, heq⟩ | ⟨hlow, hhigh, heq⟩
      · exact Or.inl ⟨r, hr, heq ▸ hn⟩
      · exact Or.inr ⟨r, hr, Or.inl ⟨hlow, hhigh, heq ▸ hn⟩⟩
      · refine Or.inr ⟨r, hr, Or.inr ⟨by omega, by omega, ?_⟩⟩
        rwa [heq, Nat.add_sub_cancel]

/-!
### Closed sets
-/

theorem closed_of_isEmpty (h : s.isEmpty) : s.Closed :=
  fun _ _ _ hc => absurd hc (not_holds_of_isEmpty h)

theorem Closed.union (hs : s.Closed) (ht : t.Closed) : (s.union t).Closed := by
  intro c d hcd
  rw [holds_union, holds_union]
  exact Or.imp (hs c d hcd) (ht c d hcd)

theorem Closed.inter (hs : s.Closed) (ht : t.Closed) : (s.inter t).Closed := by
  intro c d hcd
  rw [holds_inter, holds_inter]
  exact And.imp (hs c d hcd) (ht c d hcd)

theorem Closed.diff (hs : s.Closed) (ht : t.Closed) : (s.diff t).Closed := by
  intro c d hcd
  rw [holds_diff, holds_diff]
  exact And.imp (hs c d hcd) (mt (ht d c hcd.symm))

theorem closed_characters : Closed ⟨characters, true⟩ :=
  fun _ d _ _ => holds_iff.mpr (covers_characters d)

theorem closed_bytes : Closed ⟨bytes, true⟩ := by
  intro c d hcd
  rw [holds_iff, holds_iff, covers_bytes, covers_bytes]
  have hcases := toLower_eq_iff.mp hcd
  omega

theorem Closed.complement {everything : List Range} (hs : s.Closed)
    (hall : Closed ⟨everything, true⟩) : (s.complement everything).Closed := by
  intro c d hcd
  rw [holds_complement, holds_complement, ← holds_iff (s := ⟨everything, true⟩),
    ← holds_iff (s := ⟨everything, true⟩)]
  exact And.imp (hall c d hcd) (mt (hs d c hcd.symm))

theorem sound_empty : empty.Sound :=
  fun _ => closed_of_isEmpty rfl

theorem sound_ofRanges (ranges : List Range) : (ofRanges ranges).Sound := by
  intro h
  have hnil : ranges = [] := List.isEmpty_iff.mp h
  subst hnil
  exact closed_of_isEmpty rfl

theorem sound_addRange (s : CharSet) (r : Range) : (s.addRange r).Sound :=
  nofun

theorem Sound.union (hs : s.Sound) (ht : t.Sound) : (s.union t).Sound := by
  by_cases hleft : t.isEmpty || s.ranges == t.ranges
  · rwa [CharSet.union, if_pos hleft]
  · intro h
    rw [CharSet.union, if_neg hleft, Bool.and_eq_true] at h
    exact (hs h.1).union (ht h.2)

theorem Sound.inter (hs : s.Sound) (ht : t.Sound) : (s.inter t).Sound := by
  by_cases hleft : s.isEmpty
  · rwa [CharSet.inter, if_pos hleft]
  · by_cases hright : t.isEmpty
    · rw [CharSet.inter, if_neg hleft, if_pos hright]
      exact sound_empty
    · intro h
      rw [CharSet.inter, if_neg hleft, if_neg hright, Bool.and_eq_true] at h
      exact (hs h.1).inter (ht h.2)

theorem Sound.diff (hs : s.Sound) (ht : t.Sound) : (s.diff t).Sound := by
  by_cases hleft : s.isEmpty || t.isEmpty
  · rwa [CharSet.diff, if_pos hleft]
  · intro h
    rw [CharSet.diff, if_neg hleft, Bool.and_eq_true] at h
    exact (hs h.1).diff (ht h.2)

theorem Sound.symmDiff (hs : s.Sound) (ht : t.Sound) : (s.symmDiff t).Sound :=
  (hs.union ht).diff (hs.inter ht)

theorem Sound.complement {everything : List Range} (hs : s.Sound)
    (hall : Closed ⟨everything, true⟩) : (s.complement everything).Sound := by
  by_cases hempty : s.isEmpty
  · intro _
    exact (closed_of_isEmpty hempty).complement hall
  · intro h
    rw [CharSet.complement, if_neg hempty] at h
    exact (hs h).complement hall

theorem Sound.foldAscii (hs : s.Sound) : s.foldAscii.Sound := by
  intro _ c d hcd
  rw [holds_foldAscii hs, holds_foldAscii hs, hcd]
  exact id

end Sets
end CharSet
end Pattern
end LoopNest
