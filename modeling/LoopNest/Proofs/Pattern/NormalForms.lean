import LoopNest.Pattern.Building
import LoopNest.Proofs.Pattern.Matches
import LoopNest.Proofs.Pattern.Sets
import Mathlib.Data.List.Forall2

/-!
# Normal forms

Patterns are rearranged while they are built, and once more before they are looked for.  What
they match stays the same.
-/

namespace LoopNest
namespace Pattern

variable {cs : List Char} {p q : Pattern} {ps qs : List Pattern} {i j : Nat}

/-!
## Rows
-/

theorem matchesAll_append : MatchesAll cs (ps ++ qs) i j <->
    exists k, MatchesAll cs ps i k ∧ MatchesAll cs qs k j := by
  induction ps generalizing i with
  | nil =>
      constructor
      · intro h
        exact ⟨i, rfl, h⟩
      · intro h
        rcases h with ⟨k, rfl, h⟩
        exact h
  | cons p ps ih =>
      rw [List.cons_append]
      constructor
      · intro h
        rcases h with ⟨l, hl, hrest⟩
        rcases ih.mp hrest with ⟨k, hk, hj⟩
        exact ⟨k, ⟨l, hl, hk⟩, hj⟩
      · intro h
        rcases h with ⟨k, ⟨l, hl, hk⟩, hj⟩
        exact ⟨l, hl, ih.mpr ⟨k, hk, hj⟩⟩

theorem matchesAll_singleton : MatchesAll cs [p] = p.Matches cs := by
  funext i j
  apply propext
  constructor
  · intro h
    rcases h with ⟨k, hk, rfl⟩
    exact hk
  · intro h
    exact ⟨j, h, rfl⟩

theorem matchesAll_cons_congr (h : MatchesAll cs ps = MatchesAll cs qs) :
    MatchesAll cs (p :: ps) = MatchesAll cs (p :: qs) := by
  funext i j
  simp only [MatchesAll, h]

theorem matchesAll_itemsOf : forall p : Pattern, MatchesAll cs (itemsOf p) = p.Matches cs
  | .empty | .sequence _ => by
      funext i j
      simp only [itemsOf, MatchesAll, Matches]
  | .text _ | .one _ _ | .look _ | .either _ | .repeated _ _ | .group _ => matchesAll_singleton

theorem matchesAll_flatMap : MatchesAll cs (ps.flatMap itemsOf) = MatchesAll cs ps := by
  induction ps with
  | nil => rfl
  | cons p ps ih =>
      funext i j
      rw [List.flatMap_cons, matchesAll_append, matchesAll_itemsOf, ih]
      rfl

theorem append_prefix_drop {a b : List Char} :
    a ++ b <+: cs.drop i <-> a <+: cs.drop i ∧ b <+: cs.drop (i + a.length) := by
  induction a generalizing i with
  | nil => simp
  | cons c a ih =>
      rw [List.cons_append, cons_prefix_drop, ih, cons_prefix_drop, and_assoc, List.length_cons,
        Nat.succ_add_eq_add_succ]

theorem matchesAll_pushFront : MatchesAll cs (pushFront p ps) = MatchesAll cs (p :: ps) := by
  unfold pushFront
  split
  · rename_i first chars more
    funext i j
    simp only [MatchesAll, Matches, append_prefix_drop, List.length_append]
    apply propext
    constructor
    · intro h
      rcases h with ⟨k, ⟨⟨hfirst, hchars⟩, rfl⟩, hrest⟩
      exact ⟨_, ⟨hfirst, rfl⟩, _, ⟨hchars, (Nat.add_assoc _ _ _).symm⟩, hrest⟩
    · intro h
      rcases h with ⟨_, ⟨hfirst, rfl⟩, _, ⟨hchars, rfl⟩, hrest⟩
      exact ⟨_, ⟨⟨hfirst, hchars⟩, Nat.add_assoc _ _ _⟩, hrest⟩
  · rfl

theorem matchesAll_foldr : MatchesAll cs (ps.foldr pushFront []) = MatchesAll cs ps := by
  induction ps with
  | nil => rfl
  | cons p ps ih => rw [List.foldr_cons, matchesAll_pushFront, matchesAll_cons_congr ih]

theorem matches_inRow (ps : List Pattern) : (inRow ps).Matches cs = MatchesAll cs ps := by
  have hrow : MatchesAll cs ((ps.flatMap itemsOf).foldr pushFront []) = MatchesAll cs ps := by
    rw [matchesAll_foldr, matchesAll_flatMap]
  rw [inRow, ← hrow]
  split
  · rename_i heq
    rw [heq]
    rfl
  · rename_i p heq
    rw [heq, matchesAll_singleton]
  · rfl

/-!
## Sets
-/

theorem before_congr {test other : Char -> Bool} (h : forall c, test c <-> other c) :
    Before cs test i <-> Before cs other i := by
  simp only [Before, h]

theorem matches_ofSet (unicode : Bool) (set : CharSet) :
    (ofSet unicode set).Matches cs = (Pattern.one unicode set).Matches cs := by
  funext i j
  apply propext
  rw [ofSet]
  split
  · rename_i hempty
    refine and_congr_left fun _ => before_congr fun c => ?_
    exact iff_of_false CharSet.holds_empty (CharSet.not_holds_of_isEmpty hempty)
  · split
    · rename_i d honly
      refine and_congr_left fun _ => ?_
      rw [cons_prefix_drop, and_iff_left (List.nil_prefix)]
      refine before_congr fun c => ?_
      rw [CharSet.holds_of_only? honly, beq_iff_eq]
    · exact Iff.rfl

/-!
## Alternatives
-/

theorem matchesAny_alternativesOf : forall p : Pattern,
    MatchesAny cs (alternativesOf p) i j <-> p.Matches cs i j
  | .either _ => Iff.rfl
  | .empty | .text _ | .one _ _ | .look _ | .sequence _ | .repeated _ _ | .group _ =>
      or_iff_left id

theorem matchesAny_flatMap :
    MatchesAny cs (ps.flatMap alternativesOf) i j <-> MatchesAny cs ps i j := by
  simp only [matchesAny_iff, List.mem_flatMap]
  constructor
  · intro h
    rcases h with ⟨q, ⟨p, hp, hq⟩, h⟩
    exact ⟨p, hp, (matchesAny_alternativesOf p).mp (matchesAny_iff.mpr ⟨q, hq, h⟩)⟩
  · intro h
    rcases h with ⟨p, hp, h⟩
    rcases matchesAny_iff.mp ((matchesAny_alternativesOf p).mpr h) with ⟨q, hq, hmatch⟩
    exact ⟨q, ⟨p, hp, hq⟩, hmatch⟩

/-!
### Equal patterns
-/

mutual

theorem matches_eq_of_same : forall p q : Pattern, p.same q -> p.Matches cs = q.Matches cs
  | .empty, .empty, _ => rfl
  | .text a, .text b, h => by rw [eq_of_beq h]
  | .one u s, .one v t, h => by
      rw [same, Bool.and_eq_true, beq_iff_eq, beq_iff_eq] at h
      funext i j
      simp only [Matches, Before, CharSet.holds, h.2]
  | .look a, .look b, h => by rw [eq_of_beq h]
  | .sequence ps, .sequence qs, h => (matchesAll_eq_of_allSame ps qs h).1
  | .either ps, .either qs, h => (matchesAll_eq_of_allSame ps qs h).2
  | .repeated a p, .repeated b q, h => by
      rw [same, Bool.and_eq_true, beq_iff_eq] at h
      funext i j
      simp only [Matches, h.1, matches_eq_of_same p q h.2]

theorem matchesAll_eq_of_allSame : forall ps qs : List Pattern, allSame ps qs ->
    MatchesAll cs ps = MatchesAll cs qs ∧ MatchesAny cs ps = MatchesAny cs qs
  | [], [], _ => ⟨rfl, rfl⟩
  | p :: ps, q :: qs, h => by
      rw [allSame, Bool.and_eq_true] at h
      have hp := matches_eq_of_same p q h.1
      have hps := matchesAll_eq_of_allSame ps qs h.2
      constructor
      · funext i j
        simp only [MatchesAll, hp, hps.1]
      · funext i j
        simp only [MatchesAny, hp, hps.2]

end

/-!
### Alternatives of one character
-/

theorem mapM_eq_some {alpha beta : Type} {f : alpha -> Option beta} {xs : List alpha}
    {ys : List beta} (h : xs.mapM f = some ys) : List.Forall₂ (fun x y => f x = some y) xs ys := by
  induction xs generalizing ys with
  | nil =>
      cases h
      exact .nil
  | cons x xs ih =>
      rw [List.mapM_cons] at h
      cases hx : f x with
      | none =>
          rw [hx] at h
          cases h
      | some y =>
          cases hxs : xs.mapM f with
          | none =>
              rw [hx, hxs] at h
              cases h
          | some zs =>
              rw [hx, hxs] at h
              cases h
              exact .cons hx (ih hxs)

theorem holds_foldl_union {sets : List CharSet} {known : CharSet} {c : Char} :
    (sets.foldl CharSet.union known).holds c <->
      known.holds c ∨ exists s, s ∈ sets ∧ s.holds c := by
  induction sets generalizing known with
  | nil => simp
  | cons s sets ih => simp [ih, CharSet.holds_union, or_assoc]

/-- The matches of alternatives of one character. -/
theorem matchesAny_of_tests {alpha : Type} {test : alpha -> Char -> Bool} {xs : List alpha}
    (h : List.Forall₂ (fun p x => forall i j, p.Matches cs i j <-> Before cs (test x) i ∧ j = i + 1)
      ps xs) :
    MatchesAny cs ps i j <-> Before cs (fun c => xs.any fun x => test x c) i ∧ j = i + 1 := by
  induction h with
  | nil => simp [MatchesAny, Before]
  | cons hp _ ih =>
      rw [MatchesAny, hp, ih, ← or_and_right]
      refine and_congr_left fun _ => ?_
      simp only [Before, List.any_cons, Bool.or_eq_true, and_or_left, exists_or]

theorem matches_of_char? {c : Char} (h : p.char? = some c) :
    forall i j, p.Matches cs i j <-> Before cs (· == c) i ∧ j = i + 1 := by
  intro i j
  unfold char? at h
  split at h
  · cases h
    rw [Matches, cons_prefix_drop, and_iff_left List.nil_prefix]
    exact Iff.rfl
  · cases h

theorem matches_of_set? {set : CharSet} (h : p.set? = some set) :
    forall i j, p.Matches cs i j <-> Before cs set.holds i ∧ j = i + 1 := by
  intro i j
  unfold set? at h
  split at h
  · cases h
    exact Iff.rfl
  · cases h

theorem matches_joined? {items : List Pattern} (h : joined? items = some p) :
    p.Matches cs i j <-> MatchesAny cs items i j := by
  unfold joined? at h
  split at h
  · rename_i chars hchars
    cases h
    have htests := (mapM_eq_some hchars).imp fun p c => @matches_of_char? cs p c
    rw [matches_ofSet, matchesAny_of_tests htests]
    refine and_congr_left fun _ => before_congr fun c => ?_
    rw [CharSet.holds_ofRanges, List.any_eq_true, Covers]
    simp only [List.mem_map, beq_iff_eq]
    constructor
    · intro h
      rcases h with ⟨_, ⟨d, hd, rfl⟩, hc⟩
      exact ⟨d, hd, Range.has_toNat.mp hc⟩
    · intro h
      rcases h with ⟨d, hd, hc⟩
      exact ⟨_, ⟨d, hd, rfl⟩, Range.has_toNat.mpr hc⟩
  · rename_i sets hsets _
    cases h
    have htests := (mapM_eq_some hsets).imp fun p s => @matches_of_set? cs p s
    rw [matches_ofSet, matchesAny_of_tests htests]
    refine and_congr_left fun _ => before_congr fun c => ?_
    rw [holds_foldl_union, List.any_eq_true, or_iff_right CharSet.holds_empty]
  · cases h

/-!
### Common starts
-/

theorem matchesAll_take_of_le_commonLength {n : Nat} (h : n ≤ commonLength ps qs) :
    MatchesAll cs (qs.take n) = MatchesAll cs (ps.take n) := by
  induction n generalizing ps qs with
  | zero => rfl
  | succ n ih =>
      cases ps with
      | nil => cases h
      | cons p ps =>
          cases qs with
          | nil => cases h
          | cons q qs =>
              rw [commonLength] at h
              split at h
              · rename_i hsame
                have hrest := ih (Nat.le_of_succ_le_succ h)
                funext i j
                simp only [List.take_succ_cons, MatchesAll, hrest, matches_eq_of_same p q hsame]
              · cases h

theorem foldl_min_le {rows : List (List Pattern)} {n : Nat} :
    rows.foldl (fun n row => min n (commonLength ps row)) n ≤ n ∧
      forall row, row ∈ rows ->
        rows.foldl (fun n row => min n (commonLength ps row)) n ≤ commonLength ps row := by
  induction rows generalizing n with
  | nil => exact ⟨Nat.le_refl n, nofun⟩
  | cons row rows ih =>
      rw [List.foldl_cons]
      have hrows := @ih (min n (commonLength ps row))
      refine ⟨Nat.le_trans hrows.1 (Nat.min_le_left _ _), ?_⟩
      intro r hr
      rcases List.mem_cons.mp hr with rfl | hr
      · exact Nat.le_trans hrows.1 (Nat.min_le_right _ _)
      · exact hrows.2 r hr

/-- The matches of alternatives that are rows. -/
theorem matchesAny_of_rows {rows : List (List Pattern)}
    (h : List.Forall₂ (fun p row => p.row? = some row) ps rows) :
    MatchesAny cs ps i j <-> exists row, row ∈ rows ∧ MatchesAll cs row i j := by
  induction h with
  | nil => simp [MatchesAny]
  | @cons p row ps rows hp _ ih =>
      have hmatch : p.Matches cs i j <-> MatchesAll cs row i j := by
        unfold row? at hp
        split at hp
        · cases hp
          exact Iff.rfl
        · cases hp
      simp [MatchesAny, hmatch, ih]

theorem matches_commonStart? {items start rests : List Pattern}
    (h : commonStart? items = some (start, rests)) :
    MatchesAny cs items i j <-> exists k, MatchesAll cs start i k ∧ MatchesAny cs rests k j := by
  unfold commonStart? at h
  split at h
  · rename_i first more hrows
    split at h
    · cases h
    · rename_i n hn
      cases h
      have htake : forall row, row ∈ first :: more ->
          MatchesAll cs (row.take (n + 1)) = MatchesAll cs (first.take (n + 1)) := by
        intro row hrow
        rcases List.mem_cons.mp hrow with rfl | hrow
        · rfl
        · have hle := (@foldl_min_le first more first.length).2 row hrow
          rw [hn] at hle
          exact matchesAll_take_of_le_commonLength hle
      rw [matchesAny_of_rows (mapM_eq_some hrows)]
      simp only [matchesAny_iff, List.mem_map]
      constructor
      · intro h
        rcases h with ⟨row, hrow, hmatch⟩
        rw [← List.take_append_drop (n + 1) row, matchesAll_append, htake row hrow] at hmatch
        rcases hmatch with ⟨k, hstart, hrest⟩
        exact ⟨k, hstart, _, ⟨row, hrow, rfl⟩, (matches_inRow _ ▸ hrest)⟩
      · intro h
        rcases h with ⟨k, hstart, _, ⟨row, hrow, rfl⟩, hrest⟩
        refine ⟨row, hrow, ?_⟩
        rw [← List.take_append_drop (n + 1) row, matchesAll_append, htake row hrow]
        exact ⟨k, hstart, matches_inRow _ ▸ hrest⟩
  · cases h

theorem matches_anyOfWithin (fuel : Nat) (ps : List Pattern) :
    (anyOfWithin fuel ps).Matches cs i j <-> MatchesAny cs ps i j := by
  induction fuel generalizing ps i with
  | zero =>
      rw [anyOfWithin, ← matchesAny_flatMap]
      split
      · rename_i p heq
        rw [heq]
        exact (or_iff_left id).symm
      · rename_i items _
        split
        · rename_i hjoined
          exact matches_joined? hjoined
        · contradiction
        · exact Iff.rfl
  | succ fuel ih =>
      rw [anyOfWithin, ← matchesAny_flatMap]
      split
      · rename_i p heq
        rw [heq]
        exact (or_iff_left id).symm
      · rename_i items _
        split
        · rename_i hjoined
          exact matches_joined? hjoined
        · rename_i start rests _ _ hstart hfuel
          cases hfuel
          rw [matches_inRow, matchesAll_append, matches_commonStart? hstart, matchesAll_singleton]
          simp only [ih]
        · exact Iff.rfl

theorem matches_anyOf (ps : List Pattern) : (anyOf ps).Matches cs = MatchesAny cs ps := by
  funext i j
  exact propext (matches_anyOfWithin _ ps)

/-!
## Repetitions
-/

mutual

theorem eq_of_isBare : forall p : Pattern, p.isBare -> forall i j, p.Matches cs i j -> i = j
  | .empty, _, _, _, h => h
  | .look _, _, _, _, h => h.2
  | .sequence items, hbare, i, j, h => (eq_of_allBare items hbare i j).1 h
  | .either items, hbare, i, j, h => (eq_of_allBare items hbare i j).2 h
  | .repeated _ body, hbare, i, _, ⟨_, _, hsteps⟩ =>
      hsteps.stays (P := fun k => i = k)
        (fun k l hk hkl => hk.trans (eq_of_isBare body hbare k l hkl)) rfl
  | .group body, hbare, i, j, h => eq_of_isBare body hbare i j h

theorem eq_of_allBare : forall ps : List Pattern, allBare ps -> forall i j,
    (MatchesAll cs ps i j -> i = j) ∧ (MatchesAny cs ps i j -> i = j)
  | [], _, _, _ => ⟨id, False.elim⟩
  | p :: ps, hbare, i, j => by
      rw [allBare, Bool.and_eq_true] at hbare
      constructor
      · intro h
        rcases h with ⟨k, hk, hrest⟩
        exact (eq_of_isBare p hbare.1 i k hk).trans ((eq_of_allBare ps hbare.2 k j).1 hrest)
      · intro h
        rcases h with h | h
        · exact eq_of_isBare p hbare.1 i j h
        · exact (eq_of_allBare ps hbare.2 i j).2 h

end

section Repeats

variable {R : Nat -> Nat -> Prop} {times : Repetition} {n : Nat}

theorem steps_of_bare (hR : forall i j, R i j -> i = j) :
    Steps R n i j <-> i = j ∧ (n = 0 ∨ R i i) := by
  induction n generalizing i with
  | zero => simp [Steps]
  | succ n ih =>
      simp only [Steps, ih]
      constructor
      · intro h
        rcases h with ⟨k, hk, rfl, _⟩
        cases hR i k hk
        exact ⟨rfl, Or.inr hk⟩
      · intro h
        rcases h with ⟨rfl, hzero | hi⟩
        · cases hzero
        · exact ⟨i, hi, rfl, Or.inr hi⟩

/-- What has no characters matches often where it matches once. -/
theorem repeats_ofBare (hR : forall i j, R i j -> i = j) :
    Repeats times.ofBare R i j <-> Repeats times R i j := by
  simp only [Repeats, steps_of_bare hR, Repetition.Allows, Repetition.ofBare, Option.some.injEq,
    forall_eq']
  constructor
  · intro h
    rcases h with ⟨n, ⟨hleast, hmost⟩, hij, hn⟩
    refine ⟨max times.least n, ⟨Nat.le_max_left _ _, ?_⟩, hij, ?_⟩
    · intro m hm
      have hordered := times.ordered m hm
      rw [hm, Option.getD_some] at hmost
      omega
    · refine hn.imp_left fun hzero => ?_
      omega
  · intro h
    rcases h with ⟨n, ⟨hleast, hmost⟩, hij, hn⟩
    refine ⟨min n 1, ⟨by omega, ?_⟩, hij, hn.imp_left fun hzero => by omega⟩
    cases hm : times.most with
    | none =>
        rw [Option.getD_none]
        omega
    | some m =>
        have hle := hmost m hm
        rw [Option.getD_some]
        omega

theorem repeats_none (h : times.most = some 0) : Repeats times R i j <-> i = j := by
  have hleast := times.ordered 0 h
  constructor
  · intro h
    rcases h with ⟨n, ⟨_, hmost⟩, hsteps⟩
    have hzero := Nat.le_zero.mp (hmost 0 h)
    subst hzero
    exact hsteps
  · intro h
    rcases h with rfl
    exact ⟨0, ⟨hleast, fun m hm => Nat.zero_le m⟩, rfl⟩

theorem repeats_once (hleast : times.least = 1) (hmost : times.most = some 1) :
    Repeats times R i j <-> R i j := by
  constructor
  · intro h
    rcases h with ⟨n, ⟨hle, hge⟩, hsteps⟩
    have hone : n = 1 := Nat.le_antisymm (hge 1 hmost) (hleast ▸ hle)
    subst hone
    rcases hsteps with ⟨k, hk, rfl⟩
    exact hk
  · intro h
    refine ⟨1, ⟨Nat.le_of_eq hleast, fun m hm => ?_⟩, .one h⟩
    rw [hmost] at hm
    exact Nat.le_of_eq (Option.some.inj hm)

end Repeats

theorem matches_repeatedBy (times : Repetition) (p : Pattern) :
    (repeatedBy times p).Matches cs = (Pattern.repeated times p).Matches cs := by
  have hbounds : Repeats (if p.isBare then times.ofBare else times) (p.Matches cs) =
      Repeats times (p.Matches cs) := by
    funext i j
    split
    · rename_i hbare
      exact propext (repeats_ofBare (eq_of_isBare p hbare))
    · rfl
  have hgoal : (Pattern.repeated times p).Matches cs = Repeats times (p.Matches cs) := by
    funext i j
    rw [Matches]
  rw [hgoal, ← hbounds, repeatedBy]
  generalize (if p.isBare then times.ofBare else times) = bounds
  funext i j
  apply propext
  split
  · rename_i hnone
    exact (repeats_none hnone).symm
  · split
    · rename_i honce
      exact (repeats_once honce.1 honce.2).symm
    · exact Iff.rfl

/-!
## Loops in loops
-/

/-- A relation that is repeated without an upper bound. -/
def Often (least : Nat) (R : Nat -> Nat -> Prop) (i j : Nat) : Prop :=
  exists n, least ≤ n ∧ Steps R n i j

section Often

variable {R S : Nat -> Nat -> Prop} {times : Repetition} {least n : Nat}

theorem repeats_eq_often (h : times.most = none) : Repeats times R = Often times.least R := by
  funext i j
  simp [Repeats, Often, Repetition.Allows, h]

theorem Often.one (hleast : least ≤ 1) (h : R i j) : Often least R i j :=
  ⟨1, hleast, .one h⟩

/-- Steps that are many steps themselves. -/
theorem Steps.bind (hRS : forall i j, R i j -> Often least S i j) (h : Steps R n i j) :
    exists m, least * n ≤ m ∧ Steps S m i j := by
  induction n generalizing i with
  | zero => exact ⟨0, Nat.le_refl _, h⟩
  | succ n ih =>
      rcases h with ⟨k, hk, hrest⟩
      rcases hRS i k hk with ⟨l, hl, hlk⟩
      rcases ih hrest with ⟨m, hm, hsteps⟩
      refine ⟨l + m, ?_, steps_add.mpr ⟨k, hlk, hsteps⟩⟩
      rw [Nat.mul_succ, Nat.add_comm]
      exact Nat.add_le_add hl hm

theorem Often.bind (hRS : forall i j, R i j -> Often least S i j) (h : Often least R i j) :
    Often least S i j := by
  rcases h with ⟨n, hn, hsteps⟩
  rcases hsteps.bind hRS with ⟨m, hm, hrest⟩
  refine ⟨m, Nat.le_trans ?_ hm, hrest⟩
  cases n with
  | zero =>
      rw [Nat.mul_zero]
      exact hn
  | succ n => exact Nat.le_mul_of_pos_right least (Nat.succ_pos n)

theorem Often.mono (hRS : forall i j, R i j -> S i j) (h : Often least R i j) :
    Often least S i j := by
  rcases h with ⟨n, hn, hsteps⟩
  exact ⟨n, hn, hsteps.mono hRS⟩

theorem often_one (hrefl : forall i, R i i) : Often 1 R = Often 0 R := by
  funext i j
  apply propext
  constructor
  · intro h
    rcases h with ⟨n, _, hsteps⟩
    exact ⟨n, Nat.zero_le n, hsteps⟩
  · intro h
    rcases h with ⟨n, _, hsteps⟩
    exact ⟨n + 1, Nat.succ_pos n, i, hrefl i, hsteps⟩

end Often

mutual

theorem matches_of_canBePassed : forall p : Pattern, p.canBePassed -> p.Matches cs i i
  | .empty, _ => rfl
  | .sequence items, h => matchesAll_of_canBePassed items h
  | .either items, h => matchesAny_of_canBePassed items h
  | .repeated times body, h => by
      rw [canBePassed, Bool.or_eq_true, beq_iff_eq] at h
      refine ⟨times.least, ⟨Nat.le_refl _, times.ordered⟩, ?_⟩
      rcases h with hzero | hbody
      · rw [hzero]
        rfl
      · have hstep := matches_of_canBePassed body hbody
        generalize times.least = n
        induction n with
        | zero => rfl
        | succ n ih => exact ⟨i, hstep, ih⟩
  | .group body, h => matches_of_canBePassed body h

theorem matchesAll_of_canBePassed : forall ps : List Pattern, allCanBePassed ps ->
    MatchesAll cs ps i i
  | [], _ => rfl
  | p :: ps, h => by
      rw [allCanBePassed, Bool.and_eq_true] at h
      exact ⟨i, matches_of_canBePassed p h.1, matchesAll_of_canBePassed ps h.2⟩

theorem matchesAny_of_canBePassed : forall ps : List Pattern, anyCanBePassed ps ->
    MatchesAny cs ps i i
  | p :: ps, h => by
      rw [anyCanBePassed, Bool.or_eq_true] at h
      exact h.imp (matches_of_canBePassed p) (matchesAny_of_canBePassed ps)

end

/-- How often a loop goes round at least. -/
def rounds (passing : Bool) : Nat :=
  if passing then 0 else 1

theorem rounds_le (passing : Bool) : rounds passing ≤ 1 := by
  cases passing <;> decide

/-- What is loose may go round once, and goes round as often as the loop around it has to. -/
theorem isLoose_spec {passing : Bool} {times : Repetition} (h : isLoose passing times) :
    times.Allows 1 ∧ rounds passing ≤ times.least := by
  rcases times with ⟨least, most, greedy, ordered⟩
  simp only [isLoose, Bool.or_eq_true, Bool.and_eq_true, beq_iff_eq] at h
  rcases h with ⟨rfl, rfl, rfl | rfl⟩ | ⟨rfl, rfl⟩
  · simp [Repetition.Allows, rounds]
  · simp [Repetition.Allows, rounds]
  · simp [Repetition.Allows, rounds_le]

/-- Parts that may be passed over need not come together. -/
theorem matchesAny_of_matchesAll (h : MatchesAll cs ps i j) : Often 0 (MatchesAny cs ps) i j := by
  induction ps generalizing i with
  | nil => exact ⟨0, Nat.le_refl 0, h⟩
  | cons p ps ih =>
      rcases h with ⟨k, hk, hrest⟩
      rcases ih hrest with ⟨n, _, hsteps⟩
      exact ⟨n + 1, Nat.zero_le _, k, Or.inl hk, hsteps.mono fun _ _ => Or.inr⟩

theorem matchesAll_of_matchesAny (hpass : allCanBePassed ps) (h : MatchesAny cs ps i j) :
    MatchesAll cs ps i j := by
  induction ps with
  | nil => exact h.elim
  | cons p ps ih =>
      rw [allCanBePassed, Bool.and_eq_true] at hpass
      rcases h with h | h
      · exact ⟨j, h, matchesAll_of_canBePassed ps hpass.2⟩
      · exact ⟨i, matches_of_canBePassed p hpass.1, ih hpass.2 h⟩

/-- Two relations that are repeated lead to the same places if each of them is part of the other
one repeated. -/
structure Alike (least : Nat) (R S : Nat -> Nat -> Prop) : Prop where
  left : forall i j, R i j -> Often least S i j
  right : forall i j, S i j -> Often least R i j

theorem Alike.often_eq {least : Nat} {R S : Nat -> Nat -> Prop} (h : Alike least R S) :
    Often least R = Often least S := by
  funext i j
  exact propext ⟨.bind h.left, .bind h.right⟩

theorem alike_refl {least : Nat} {R : Nat -> Nat -> Prop} (hleast : least ≤ 1) :
    Alike least R R :=
  ⟨fun _ _ => .one hleast, fun _ _ => .one hleast⟩

mutual

theorem alike_loopBody (passing : Bool) : forall p : Pattern,
    Alike (rounds passing) (p.Matches cs) ((p.loopBody passing).Matches cs)
  | .repeated times body => by
      rw [loopBody]
      split
      · rename_i hloose
        have hspec := isLoose_spec hloose
        have hbody := alike_loopBody passing body
        constructor
        · intro i j h
          rcases h with ⟨n, ⟨hn, _⟩, hsteps⟩
          exact .bind hbody.left ⟨n, Nat.le_trans hspec.2 hn, hsteps⟩
        · intro i j h
          exact (hbody.right i j h).mono fun k l hkl => ⟨1, hspec.1, .one hkl⟩
      · exact alike_refl (rounds_le passing)
  | .either items => alike_loopBodies passing items
  | .sequence items => by
      rw [loopBody]
      split
      · rename_i h
        rw [Bool.and_eq_true] at h
        have hitems := alike_loopBodies passing items
        rw [h.1] at hitems ⊢
        constructor
        · intro i j hij
          exact (matchesAny_of_matchesAll hij).bind hitems.left
        · intro i j hij
          exact (hitems.right i j hij).mono fun k l => matchesAll_of_matchesAny h.2
      · exact alike_refl (rounds_le passing)
  | .empty | .text _ | .one _ _ | .look _ | .group _ => alike_refl (rounds_le passing)

theorem alike_loopBodies (passing : Bool) : forall ps : List Pattern,
    Alike (rounds passing) (MatchesAny cs ps) (MatchesAny cs (loopBodies passing ps))
  | [] => ⟨nofun, nofun⟩
  | p :: ps => by
      have hp := alike_loopBody passing p
      have hps := alike_loopBodies passing ps
      constructor
      · intro i j h
        rcases h with h | h
        · exact (hp.left i j h).mono fun _ _ => Or.inl
        · exact (hps.left i j h).mono fun _ _ => Or.inr
      · intro i j h
        rcases h with h | h
        · exact (hp.right i j h).mono fun _ _ => Or.inl
        · exact (hps.right i j h).mono fun _ _ => Or.inr

end

theorem matches_loop (times : Repetition) (body : Pattern) :
    (loop times body).Matches cs = Repeats times (body.Matches cs) := by
  have hrepeated : forall (times : Repetition) (p : Pattern),
      (Pattern.repeated times p).Matches cs = Repeats times (p.Matches cs) := fun _ _ => rfl
  unfold loop
  split
  · rename_i hleast hmost
    rw [hrepeated, repeats_eq_often hmost, repeats_eq_often hmost, hleast]
    exact (alike_loopBody true body).often_eq.symm
  · rename_i hleast hmost
    split
    · rename_i hpassed
      have hrefl : forall i, body.Matches cs i i := fun _ => matches_of_canBePassed body hpassed
      rw [hrepeated, repeats_eq_often hmost, repeats_eq_often rfl, hleast, often_one hrefl]
      exact (alike_loopBody true body).often_eq.symm
    · rw [hrepeated, repeats_eq_often hmost, repeats_eq_often hmost, hleast]
      exact (alike_loopBody false body).often_eq.symm
  · rfl

mutual

/-- The form in which a pattern is looked for matches the same parts of a text. -/
theorem matches_unnested : forall p : Pattern, p.unnested.Matches cs = p.Matches cs
  | .empty | .text _ | .one _ _ | .look _ => rfl
  | .sequence items => (matchesAll_allUnnested items).1
  | .either items => (matchesAll_allUnnested items).2
  | .repeated times body => by
      rw [unnested, matches_loop, matches_unnested body]
      rfl
  | .group body => matches_unnested body

theorem matchesAll_allUnnested : forall ps : List Pattern,
    MatchesAll cs (allUnnested ps) = MatchesAll cs ps ∧
      MatchesAny cs (allUnnested ps) = MatchesAny cs ps
  | [] => ⟨rfl, rfl⟩
  | p :: ps => by
      have hp := matches_unnested p
      have hps := matchesAll_allUnnested ps
      constructor
      · funext i j
        simp only [allUnnested, MatchesAll, hp, hps.1]
      · funext i j
        simp only [allUnnested, MatchesAny, hp, hps.2]

end

end Pattern
end LoopNest
