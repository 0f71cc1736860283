import LoopNest.Pattern
import LoopNest.Proofs.Pattern.Matches
import LoopNest.Proofs.Pattern.Sets

/-!
# Patterns of a few words

Every match of a pattern begins with one of its starts, and it is no longer than a start that is
whole.  So a pattern all of whose starts are whole matches a few words and nothing else.
-/

namespace LoopNest
namespace Pattern

/-!
## Words of a text
-/

section Words

variable {cs : List Char} {i j k : Nat}

def wordBetween (cs : List Char) (i j : Nat) : List Nat :=
  Direction.forward.bytes ((cs.drop i).take (j - i))

theorem bytes_append (a b : List Char) :
    Direction.forward.bytes (a ++ b) = Direction.forward.bytes a ++ Direction.forward.bytes b :=
  List.flatMap_append

theorem wordBetween_self (cs : List Char) (i : Nat) : wordBetween cs i i = [] := by
  rw [wordBetween, Nat.sub_self, List.take_zero]
  rfl

theorem wordBetween_append (hik : i ≤ k) (hkj : k ≤ j) :
    wordBetween cs i j = wordBetween cs i k ++ wordBetween cs k j := by
  have hlength : j - i = (k - i) + (j - k) := by omega
  have hdrop : (cs.drop i).drop (k - i) = cs.drop k := by
    rw [List.drop_drop, Nat.add_sub_of_le hik]
  rw [wordBetween, hlength, List.take_add, bytes_append, hdrop]
  rfl

theorem wordBetween_of_starts {chars : List Char} (h : chars <+: cs.drop i) :
    wordBetween cs i (i + chars.length) = Direction.forward.bytes chars := by
  rw [wordBetween, Nat.add_sub_cancel_left, ← List.prefix_iff_eq_take.mp h]

theorem wordBetween_of_char {c : Char} (h : cs[i]? = some c) :
    wordBetween cs i (i + 1) = bytesOf c.toNat := by
  have hstart : [c] <+: cs.drop i :=
    cons_prefix_drop.mpr ⟨⟨c, h, beq_self_eq_true c⟩, List.nil_prefix⟩
  rw [show i + 1 = i + [c].length from rfl, wordBetween_of_starts hstart]
  exact List.append_nil _

end Words

/-!
## Starts
-/

/-- A word begins with a start, and it is nothing more if the start is whole. -/
structure Start.Opens (s : Start) (word : List Nat) : Prop where
  front : s.bytes <+: word
  eq_of_whole : s.whole -> s.bytes = word

theorem Start.Opens.extend {s : Start} {word more : List Nat} (h : s.Opens word)
    (hwhole : s.whole = false) : s.Opens (word ++ more) :=
  ⟨h.front.trans (List.prefix_append _ _), fun h => by rw [hwhole] at h; cases h⟩

/-- One of some starts opens a word. -/
def OneOpens (known : List Start) (word : List Nat) : Prop :=
  exists s, s ∈ known ∧ s.Opens word

section OneOpens

variable {known others : List Start} {word more : List Nat} {s : Start}

theorem oneOpens_cons : OneOpens (s :: known) word <-> s.Opens word ∨ OneOpens known word := by
  simp [OneOpens]

theorem oneOpens_append :
    OneOpens (known ++ others) word <-> OneOpens known word ∨ OneOpens others word := by
  simp only [OneOpens, List.mem_append, or_and_right, exists_or]

theorem oneOpens_cut (length : Nat) (h : OneOpens known word) :
    OneOpens (Starts.cut length known) word := by
  rcases h with ⟨s, hs, hopens⟩
  refine ⟨_, List.mem_map.mpr ⟨s, hs, rfl⟩, ?_⟩
  split
  · exact ⟨(List.take_prefix _ _).trans hopens.front, nofun⟩
  · exact hopens

theorem oneOpens_merge (h : OneOpens known word) : OneOpens (Starts.merge known) word := by
  induction known with
  | nil => exact h
  | cons s known ih =>
      rw [Starts.merge]
      split
      · rename_i hnil
        rw [hnil] at ih
        exact oneOpens_cons.mpr ((oneOpens_cons.mp h).imp_right ih)
      · rename_i t rest hcons
        rw [hcons] at ih
        have hone := (oneOpens_cons.mp h).imp_right fun h => oneOpens_cons.mp (ih h)
        split
        · rename_i hsame
          rw [oneOpens_cons]
          rcases hone with hs | ht | hrest
          · exact Or.inl ⟨hs.front, fun hwhole => hs.eq_of_whole (Bool.and_eq_true _ _ ▸ hwhole).1⟩
          · refine Or.inl ⟨hsame ▸ ht.front, fun hwhole => ?_⟩
            rw [Bool.and_eq_true] at hwhole
            exact hsame.trans (ht.eq_of_whole hwhole.2)
          · exact Or.inr hrest
        · rw [oneOpens_cons, oneOpens_cons]
          exact hone

/-- Starts that may go on open longer words, too. -/
theorem oneOpens_extend (h : OneOpens known word) :
    OneOpens (known.map fun s => { s with whole := false }) (word ++ more) := by
  rcases h with ⟨s, hs, hopens⟩
  exact ⟨_, List.mem_map.mpr ⟨s, hs, rfl⟩,
    ⟨hopens.front.trans (List.prefix_append _ _), nofun⟩⟩

end OneOpens

/-- The starts, if they are known, open all words that a relation tells. -/
def Starts.Open (starts : Starts) (cs : List Char) (R : Nat -> Nat -> Prop) : Prop :=
  forall known, starts = some known -> forall i j, i ≤ cs.length -> R i j ->
    OneOpens known (wordBetween cs i j)

def Then (R S : Nat -> Nat -> Prop) (i j : Nat) : Prop :=
  exists k, R i k ∧ S k j

namespace Starts

variable {cs : List Char} {R S : Nat -> Nat -> Prop} {first second : Starts} {n : Nat}

theorem open_nothing (hR : forall i j, R i j -> i = j) : nothing.Open cs R := by
  intro known hknown i j hi hij
  cases hknown
  cases hR i j hij
  rw [wordBetween_self]
  exact ⟨_, List.mem_singleton.mpr rfl, ⟨List.prefix_refl _, fun _ => rfl⟩⟩

theorem Open.congr (h : first.Open cs R) (hSR : forall i j, i ≤ cs.length -> S i j -> R i j) :
    first.Open cs S :=
  fun known hknown i j hi hij => h known hknown i j hi (hSR i j hi hij)

theorem Open.goingOn (h : first.Open cs R) (hR : Onward cs.length R) (hS : Onward cs.length S) :
    (goingOn first).Open cs (Then R S) := by
  intro known hknown i j hi h
  rcases h with ⟨k, hik, hkj⟩
  rcases Option.map_eq_some_iff.mp hknown with ⟨starts, hstarts, rfl⟩
  have hk := hR i k hi hik
  have hj := hS k j hk.2 hkj
  rw [wordBetween_append hk.1 hj.1]
  exact oneOpens_extend (h starts hstarts i k hi hik)

/-- Starts none of which is whole open longer words, too. -/
theorem Open.of_allGoOn (h : first.Open cs R) (hall : allGoOn first) (hR : Onward cs.length R)
    (hS : Onward cs.length S) : first.Open cs (Then R S) := by
  intro known hknown i j hi h
  rcases h with ⟨k, hik, hkj⟩
  have hk := hR i k hi hik
  have hj := hS k j hk.2 hkj
  rw [wordBetween_append hk.1 hj.1]
  rcases h known hknown i k hi hik with ⟨s, hs, hopens⟩
  rw [hknown, allGoOn, List.all_eq_true] at hall
  exact ⟨s, hs, hopens.extend (by simpa using hall s hs)⟩

theorem Open.followedBy (hfirst : first.Open cs R) (hsecond : second.Open cs S)
    (hR : Onward cs.length R) (hS : Onward cs.length S) :
    (followedBy first second).Open cs (Then R S) := by
  have hgoing := hfirst.goingOn hR hS
  unfold Starts.followedBy
  split
  · exact nofun
  · split
    · exact nofun
    · exact hgoing
  · rename_i starts ends
    split
    · split
      · exact nofun
      · exact hgoing
    · intro known hknown i j hi h
      rcases h with ⟨k, hik, hkj⟩
      cases hknown
      refine oneOpens_cut _ (oneOpens_merge ?_)
      have hk := hR i k hi hik
      have hj := hS k j hk.2 hkj
      rw [wordBetween_append hk.1 hj.1]
      rcases hfirst starts rfl i k hi hik with ⟨s, hs, hopens⟩
      cases hwhole : s.whole with
      | false =>
          refine ⟨s, List.mem_flatMap.mpr ⟨s, hs, ?_⟩, hopens.extend hwhole⟩
          simp [hwhole]
      | true =>
          rcases hsecond ends rfl k j hk.2 hkj with ⟨e, he, hends⟩
          refine ⟨⟨s.bytes ++ e.bytes, e.whole⟩, List.mem_flatMap.mpr ⟨s, hs, ?_⟩, ?_, ?_⟩
          · rw [hwhole, if_pos rfl]
            exact List.mem_map.mpr ⟨e, he, rfl⟩
          · rw [hopens.eq_of_whole hwhole]
            exact (List.prefix_append_right_inj _).mpr hends.front
          · intro hwholeEnd
            rw [hopens.eq_of_whole hwhole, hends.eq_of_whole hwholeEnd]

theorem Open.orElse (hfirst : first.Open cs R) (hsecond : second.Open cs S) :
    (orElse first second).Open cs fun i j => R i j ∨ S i j := by
  unfold Starts.orElse
  split
  · rename_i starts others
    intro known hknown i j hi hij
    have hone : OneOpens starts (wordBetween cs i j) ∨ OneOpens others (wordBetween cs i j) :=
      hij.imp (hfirst starts rfl i j hi) (hsecond others rfl i j hi)
    split at hknown
    · cases hknown
      exact oneOpens_merge (oneOpens_append.mpr hone)
    · dsimp only at hknown
      split at hknown
      · cases hknown
        refine oneOpens_merge (oneOpens_append.mpr (hone.imp ?_ ?_))
        · exact fun h => oneOpens_merge (oneOpens_cut 4 h)
        · exact fun h => oneOpens_merge (oneOpens_cut 4 h)
      · cases hknown
  · exact nofun

theorem open_foldl {known : List Starts} {rels : List (Nat -> Nat -> Prop)}
    (h : List.Forall₂ (fun starts S => starts.Open cs S ∧ Onward cs.length S) known rels)
    (hfirst : first.Open cs R) :
    (known.foldl orElse first).Open cs fun i j => R i j ∨ exists S, S ∈ rels ∧ S i j := by
  induction h generalizing first R with
  | nil => exact hfirst.congr fun i j _ hij => by simpa using hij
  | cons hstarts _ ih =>
      refine (ih (hfirst.orElse hstarts.1)).congr fun i j _ hij => ?_
      simpa [or_assoc] using hij

/-!
### Rows and repetitions
-/

def Row (rels : List (Nat -> Nat -> Prop)) : Nat -> Nat -> Prop :=
  rels.foldr Then (· = ·)

theorem row_replicate : Row (List.replicate n R) = Steps R n := by
  induction n with
  | zero => rfl
  | succ n ih =>
      rw [List.replicate_succ, Row, List.foldr_cons, ← Row, ih]
      rfl

theorem row_matches (items : List Pattern) :
    Row (items.map (Pattern.Matches cs)) = MatchesAll cs items := by
  induction items with
  | nil =>
      funext i j
      simp [Row, MatchesAll]
  | cons p items ih =>
      rw [List.map_cons, Row, List.foldr_cons, ← Row, ih]
      funext i j
      simp [Then, MatchesAll]

theorem onward_then (hR : Onward cs.length R) (hS : Onward cs.length S) :
    Onward cs.length (Then R S) := by
  intro i j hi h
  rcases h with ⟨k, hik, hkj⟩
  have hk := hR i k hi hik
  have hj := hS k j hk.2 hkj
  exact ⟨Nat.le_trans hk.1 hj.1, hj.2⟩

theorem open_inRow {known : List Starts} {rels : List (Nat -> Nat -> Prop)}
    (h : List.Forall₂ (fun starts S => starts.Open cs S ∧ Onward cs.length S) known rels)
    (hfirst : first.Open cs R) (hR : Onward cs.length R) :
    (inRow first known).Open cs (Then R (Row rels)) := by
  induction h generalizing first R with
  | nil => exact hfirst.congr fun i j _ ⟨k, hik, hkj⟩ => hkj ▸ hik
  | @cons starts S known rels hstarts hrest ih =>
      have hrow : Onward cs.length (Row rels) := by
        clear ih
        induction hrest with
        | nil => exact fun i j hi hij => hij ▸ ⟨Nat.le_refl i, hi⟩
        | cons hstarts _ ih => exact onward_then hstarts.2 ih
      rw [inRow]
      split
      · rename_i hall
        exact hfirst.of_allGoOn hall hR (onward_then hstarts.2 hrow)
      · refine (ih (hfirst.followedBy hstarts.1 hR hstarts.2) (onward_then hR hstarts.2)).congr ?_
        intro i j _ h
        rcases h with ⟨k, hik, l, hkl, hlj⟩
        exact ⟨l, ⟨k, hik, hkl⟩, hlj⟩

theorem open_copies (count : Nat) (h : first.Open cs R) (hR : Onward cs.length R) :
    (inRow nothing (List.replicate count first)).Open cs (Steps R count) := by
  have hcopies : List.Forall₂ (fun starts S => starts.Open cs S ∧ Onward cs.length S)
      (List.replicate count first) (List.replicate count R) := by
    induction count with
    | zero => exact .nil
    | succ count ih => exact .cons ⟨h, hR⟩ ih
  have hnothing : nothing.Open cs (· = ·) := open_nothing fun _ _ => id
  refine (open_inRow hcopies hnothing fun i j hi hij => hij ▸ ⟨Nat.le_refl i, hi⟩).congr ?_
  intro i j _ hij
  rw [row_replicate]
  exact ⟨i, rfl, hij⟩

theorem open_repeatedBy (times : Repetition) (h : first.Open cs R) (hR : Onward cs.length R) :
    (repeatedBy times first).Open cs (Repeats times R) := by
  rw [Starts.repeatedBy]
  split
  · rename_i hleast
    have hnothing : nothing.Open cs (· = ·) := open_nothing fun _ _ => id
    -- A repetition is empty or begins with one round; more come only if more are allowed.
    have honce : (if times.most = some 1 then first else goingOn first).Open cs
        (fun i j => exists n, times.Allows (n + 1) ∧ Steps R (n + 1) i j) := by
      split
      · rename_i hmost
        refine h.congr fun i j _ ⟨n, ⟨_, hle⟩, hsteps⟩ => ?_
        cases Nat.le_zero.mp (Nat.le_of_succ_le_succ (hle 1 hmost))
        rcases hsteps with ⟨k, hik, rfl⟩
        exact hik
      · intro known hknown i j hi h
        rcases h with ⟨n, _, k, hik, hkj⟩
        exact (h.goingOn hR hR.steps) known hknown i j hi ⟨k, hik, hkj⟩
    have hcases : forall i j, Repeats times R i j ->
        (exists n, times.Allows (n + 1) ∧ Steps R (n + 1) i j) ∨ i = j := by
      intro i j h
      rcases h with ⟨n, hallows, hsteps⟩
      cases n with
      | zero => exact Or.inr hsteps
      | succ n => exact Or.inl ⟨n, hallows, hsteps⟩
    dsimp only
    generalize (if times.most = some 1 then first else goingOn first) = once at honce ⊢
    split
    · exact (honce.orElse hnothing).congr fun i j _ => hcases i j
    · exact (hnothing.orElse honce).congr fun i j _ hij => (hcases i j hij).symm
  · have hcopies := open_copies (min times.least greatestCopies) h hR
    dsimp only
    split
    · rename_i hexact
      refine hcopies.congr fun i j _ ⟨n, ⟨hle, hge⟩, hsteps⟩ => ?_
      have hn := Nat.le_antisymm (hge _ hexact.1) hle
      rwa [Nat.min_eq_left hexact.2, ← hn]
    · intro known hknown i j hi h
      rcases h with ⟨n, ⟨hle, _⟩, hsteps⟩
      rw [← Nat.add_sub_of_le (Nat.le_trans (Nat.min_le_left _ greatestCopies) hle)] at hsteps
      exact (hcopies.goingOn hR.steps hR.steps) known hknown i j hi (steps_add.mp hsteps)

theorem open_ofSet (set : CharSet) :
    (ofSet set).Open cs fun i j => Before cs set.holds i ∧ j = i + 1 := by
  rw [Starts.ofSet]
  split
  · exact nofun
  · intro known hknown i j _ h
    rcases h with ⟨⟨c, hc, hholds⟩, rfl⟩
    cases hknown
    rcases CharSet.holds_iff.mp hholds with ⟨r, hr, hlow, hhigh⟩
    rw [wordBetween_of_char hc]
    refine ⟨⟨bytesOf c.toNat, true⟩, List.mem_flatMap.mpr ⟨r, hr, ?_⟩, List.prefix_refl _,
      fun _ => rfl⟩
    exact List.mem_map.mpr ⟨c.toNat, List.mem_range'_1.mpr ⟨hlow, by omega⟩, rfl⟩

theorem open_text (chars : List Char) :
    Starts.Open (some (cut greatestLength [⟨Direction.forward.bytes chars, true⟩])) cs
      fun i j => chars <+: cs.drop i ∧ j = i + chars.length := by
  intro known hknown i j _ h
  rcases h with ⟨hstart, rfl⟩
  cases hknown
  refine oneOpens_cut _ ⟨_, List.mem_singleton.mpr rfl, ?_⟩
  rw [wordBetween_of_starts hstart]
  exact ⟨List.prefix_refl _, fun _ => rfl⟩

end Starts

/-!
## Patterns
-/

section Patterns

variable {cs : List Char}

mutual

/-- The starts of a pattern open all its matches. -/
theorem open_starts : forall p : Pattern, p.starts.Open cs (p.Matches cs)
  | .empty => Starts.open_nothing fun _ _ => id
  | .look _ => Starts.open_nothing fun _ _ => And.right
  | .text chars => Starts.open_text chars
  | .one _ set => Starts.open_ofSet set
  | .sequence items => by
      rw [starts]
      have hnothing : Starts.nothing.Open cs (· = ·) := Starts.open_nothing fun _ _ => id
      refine (Starts.open_inRow (open_allStarts items) hnothing
        fun i j hi hij => hij ▸ ⟨Nat.le_refl i, hi⟩).congr ?_
      intro i j _ hij
      rw [Starts.row_matches]
      exact ⟨i, rfl, hij⟩
  | .either items => by
      rw [starts]
      have hnone : Starts.Open (some []) cs fun _ _ => False := fun _ _ _ _ _ => False.elim
      refine (Starts.open_foldl (open_allStarts items) hnone).congr fun i j _ hij => ?_
      rcases matchesAny_iff.mp hij with ⟨p, hp, h⟩
      exact Or.inr ⟨_, List.mem_map.mpr ⟨p, hp, rfl⟩, h⟩
  | .repeated times body => Starts.open_repeatedBy times (open_starts body) (onward_matches cs body)
  | .group body => open_starts body

theorem open_allStarts : forall ps : List Pattern,
    List.Forall₂ (fun starts S => starts.Open cs S ∧ Onward cs.length S) (allStarts ps)
      (ps.map (Pattern.Matches cs))
  | [] => .nil
  | p :: ps => .cons ⟨open_starts p, onward_matches cs p⟩ (open_allStarts ps)

end

/-- Every match of a pattern of a few words is one of these words. -/
theorem mem_words_of_matches {p : Pattern} (h : p.isOfWords) : exists known, p.starts = some known ∧
    forall cs i j, i ≤ cs.length -> p.Matches cs i j ->
      wordBetween cs i j ∈ known.map Start.bytes ∧ wordBetween cs i j ≠ [] := by
  rw [isOfWords, Bool.and_eq_true] at h
  have hwords := h.2
  split at hwords
  · cases hwords
  · cases hwords
  · rename_i known _ hknown
    refine ⟨known, hknown, ?_⟩
    intro cs i j hi hij
    rcases open_starts p known hknown i j hi hij with ⟨s, hs, hopens⟩
    have hwhole := List.all_eq_true.mp hwords s hs
    rw [Bool.and_eq_true, Bool.not_eq_true', List.isEmpty_eq_false_iff] at hwhole
    have heq := hopens.eq_of_whole hwhole.1
    exact ⟨heq ▸ List.mem_map.mpr ⟨s, hs, rfl⟩, heq ▸ hwhole.2⟩

end Patterns

end Pattern
end LoopNest
