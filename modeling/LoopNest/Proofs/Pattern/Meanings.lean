import LoopNest.Pattern
import LoopNest.Proofs.Pattern.NormalForms

/-!
# What patterns mean

The tree of a pattern tells directly which parts of a text it matches, without sets of ranges,
normal forms and searches.  The pattern that is built from the tree matches the same parts, and
so it is found in the same texts.
-/

namespace LoopNest
namespace Pattern

/-!
## Sets
-/

/-- Is this the same character?  Small and capital letters may count as the same. -/
def Flags.SameLetter (flags : Flags) (c d : Char) : Prop :=
  if flags.anyCase then c.toLower = d.toLower else c = d

/-- The members of a set, and those that count as the same. -/
def Flags.Folds (flags : Flags) (S : Char -> Prop) (c : Char) : Prop :=
  exists d, flags.SameLetter c d ∧ S d

/-- The members of a set, or everything else; there are no characters but bytes if the flag for
all of them is turned off. -/
def Flags.Negates (flags : Flags) (negated : Bool) (S : Char -> Prop) (c : Char) : Prop :=
  if negated then (flags.unicode ∨ c.toNat < 0x100) ∧ ¬ S c else S c

def CharSet.Name.Has (name : CharSet.Name) (c : Char) : Prop :=
  Covers name.ranges c.toNat

def SetOperator.Holds (left right : Prop) : SetOperator -> Prop
  | inter => left ∧ right
  | diff => left ∧ ¬ right
  | symmDiff => (left ∧ ¬ right) ∨ (right ∧ ¬ left)

mutual

def SetTree.Holds (flags : Flags) : SetTree -> Char -> Prop
  | .nothing _, _ => False
  | .letter _ l, c => c = l.char
  | .range _ low high, c => low.2.char.toNat ≤ c.toNat ∧ c.toNat ≤ high.2.char.toNat
  | .named _ name negated, c => flags.Negates negated (flags.Folds name.Has) c
  | .shorthand _ s, c => flags.Negates s.negated s.name.Has c
  | .property _ _, _ => False
  | .bracket _ negated body, c => flags.Negates negated (flags.Folds (body.Holds flags)) c
  | .union _ items, c => AnyHolds flags items c
  | .combined _ operator left right, c =>
      operator.Holds (flags.Folds (left.Holds flags) c) (flags.Folds (right.Holds flags) c)

def AnyHolds (flags : Flags) : List SetTree -> Char -> Prop
  | [], _ => False
  | item :: items, c => item.Holds flags c ∨ AnyHolds flags items c

end

structure CharSet.Is (s : CharSet) (S : Char -> Prop) : Prop where
  sound : s.Sound
  holds_iff : forall c, s.holds c <-> S c

section Sets

variable {flags : Flags} {span : Stretch} {negated : Bool} {s t known : CharSet}
  {S T K : Char -> Prop} {l : Letter} {n : Nat}

theorem is_empty : CharSet.empty.Is fun _ => False :=
  ⟨CharSet.sound_empty, fun _ => iff_of_false CharSet.holds_empty id⟩

theorem is_ofRanges (ranges : List Range) :
    (CharSet.ofRanges ranges).Is fun c => Covers ranges c.toNat :=
  ⟨CharSet.sound_ofRanges ranges, fun _ => CharSet.holds_ofRanges⟩

theorem CharSet.Is.addRange (hs : s.Is S) (r : Range) :
    (s.addRange r).Is fun c => S c ∨ r.Has c.toNat :=
  ⟨CharSet.sound_addRange s r, fun c => by rw [CharSet.holds_addRange, hs.holds_iff, or_comm]⟩

theorem CharSet.Is.union (hs : s.Is S) (ht : t.Is T) : (s.union t).Is fun c => S c ∨ T c :=
  ⟨hs.sound.union ht.sound, fun c => by rw [CharSet.holds_union, hs.holds_iff, ht.holds_iff]⟩

theorem is_apply (operator : SetOperator) (hs : s.Is S) (ht : t.Is T) :
    (operator.apply s t).Is fun c => operator.Holds (S c) (T c) := by
  cases operator with
  | inter =>
      refine ⟨hs.sound.inter ht.sound, fun c => ?_⟩
      rw [← hs.holds_iff, ← ht.holds_iff]
      exact CharSet.holds_inter
  | diff =>
      refine ⟨hs.sound.diff ht.sound, fun c => ?_⟩
      rw [← hs.holds_iff, ← ht.holds_iff]
      exact CharSet.holds_diff
  | symmDiff =>
      refine ⟨hs.sound.symmDiff ht.sound, fun c => ?_⟩
      rw [← hs.holds_iff, ← ht.holds_iff]
      exact CharSet.holds_symmDiff

/-- Every letter of the set is there in both cases. -/
theorem folds_of_closed (hs : s.Is S) (hclosed : s.Closed) {c : Char} :
    S c <-> exists d, c.toLower = d.toLower ∧ S d := by
  constructor
  · intro hc
    exact ⟨c, rfl, hc⟩
  · intro h
    rcases h with ⟨d, hcd, hd⟩
    rw [← hs.holds_iff] at hd ⊢
    exact hclosed d c hcd.symm hd

theorem is_foldCase (hs : s.Is S) (h : foldCase flags span s = .ok t) : t.Is (flags.Folds S) := by
  rw [foldCase] at h
  cases hcase : flags.anyCase with
  | false =>
      rw [hcase] at h
      cases h
      refine ⟨hs.sound, fun c => ?_⟩
      simp [Flags.Folds, Flags.SameLetter, hcase, hs.holds_iff]
  | true =>
      simp only [hcase, Bool.not_true, Bool.false_eq_true, if_false] at h
      have hfolds : forall c, flags.Folds S c <-> exists d, c.toLower = d.toLower ∧ S d := by
        simp [Flags.Folds, Flags.SameLetter, hcase]
      split at h
      · cases h
        refine ⟨hs.sound.foldAscii, fun c => ?_⟩
        simp only [hfolds, CharSet.holds_foldAscii hs.sound, hs.holds_iff]
      · split at h
        · rename_i hknown
          cases h
          rw [Bool.or_eq_true] at hknown
          have hclosed : s.Closed := hknown.elim hs.sound CharSet.closed_of_isEmpty
          refine ⟨fun _ => hclosed, fun c => ?_⟩
          rw [hfolds, ← folds_of_closed hs hclosed]
          exact hs.holds_iff c
        · cases h

theorem is_negate (hs : s.Is S) (h : negate flags span negated s = .ok t) :
    t.Is (flags.Negates negated S) := by
  have hplain : flags.Negates false S = S := by
    funext c
    simp [Flags.Negates]
  rw [negate] at h
  split at h
  · rename_i hunicode
    cases h
    cases negated with
    | false => rwa [hplain]
    | true =>
        refine ⟨hs.sound.complement CharSet.closed_characters, fun c => ?_⟩
        simp [Flags.Negates, CharSet.holds_complement, hs.holds_iff, hunicode,
          CharSet.covers_characters]
  · rename_i hunicode
    cases negated with
    | false =>
        simp only [Bool.false_eq_true, if_false] at h
        split at h
        · cases h
          rwa [hplain]
        · cases h
    | true =>
        simp only [if_true] at h
        split at h
        · cases h
          refine ⟨hs.sound.complement CharSet.closed_bytes, fun c => ?_⟩
          simp [Flags.Negates, CharSet.holds_complement, hs.holds_iff, hunicode,
            CharSet.covers_bytes]
        · cases h

theorem is_finishSet (hs : s.Is S) (h : finishSet flags span negated s = .ok t) :
    t.Is (flags.Negates negated (flags.Folds S)) := by
  rcases bind_eq_ok.mp h with ⟨r, hr, ht⟩
  exact is_negate (is_foldCase hs hr) ht

theorem is_shorthandSet {shorthand : Shorthand} (h : shorthandSet flags span shorthand = .ok s) :
    s.Is (flags.Negates shorthand.negated shorthand.name.Has) := by
  unfold shorthandSet at h
  split at h
  · cases h
  · exact is_negate (is_ofRanges _) h

theorem eq_of_memberNumber (h : memberNumber flags span l = .ok n) : n = l.char.toNat := by
  unfold memberNumber at h
  split at h
  · cases h
    rfl
  · cases h

end Sets

mutual

/-- The members that are added to a set are those of the set as it is written. -/
theorem is_addTo {flags : Flags} : forall (tree : SetTree) {known s : CharSet} {K : Char -> Prop},
    known.Is K -> tree.addTo flags known = .ok s -> s.Is fun c => K c ∨ tree.Holds flags c
  | .nothing _, known, s, K, hknown, h => by
      cases h
      simpa [SetTree.Holds] using hknown
  | .letter span l, known, s, K, hknown, h => by
      rcases bind_eq_ok.mp h with ⟨n, hn, hs⟩
      cases hs
      cases eq_of_memberNumber hn
      simpa only [SetTree.Holds, Range.has_toNat] using hknown.addRange ⟨l.char.toNat, l.char.toNat⟩
  | .range _ (lowSpan, low) (highSpan, high), known, s, K, hknown, h => by
      rcases bind_eq_ok.mp h with ⟨m, hm, hrest⟩
      rcases bind_eq_ok.mp hrest with ⟨n, hn, hs⟩
      cases hs
      cases eq_of_memberNumber hm
      cases eq_of_memberNumber hn
      exact hknown.addRange _
  | .named span name negated, known, s, K, hknown, h => by
      rcases bind_eq_ok.mp h with ⟨t, ht, hs⟩
      cases hs
      exact hknown.union (is_finishSet (is_ofRanges _) ht)
  | .shorthand span shorthand, known, s, K, hknown, h => by
      rcases bind_eq_ok.mp h with ⟨t, ht, hs⟩
      cases hs
      exact hknown.union (is_shorthandSet ht)
  | .property _ _, _, _, _, _, h => by cases h
  | .bracket span negated body, known, s, K, hknown, h => by
      rcases bind_eq_ok.mp h with ⟨inner, hinner, hrest⟩
      rcases bind_eq_ok.mp hrest with ⟨t, ht, hs⟩
      cases hs
      have hbody := is_addTo body is_empty hinner
      simp only [false_or] at hbody
      exact hknown.union (is_finishSet hbody ht)
  | .union _ items, known, s, K, hknown, h => is_addAllTo items hknown h
  | .combined _ operator left right, known, s, K, hknown, h => by
      rcases bind_eq_ok.mp h with ⟨a, ha, hrest⟩
      rcases bind_eq_ok.mp hrest with ⟨b, hb, hrest⟩
      rcases bind_eq_ok.mp hrest with ⟨b', hb', hrest⟩
      rcases bind_eq_ok.mp hrest with ⟨a', ha', hs⟩
      cases hs
      have hleft := is_addTo left is_empty ha
      have hright := is_addTo right is_empty hb
      simp only [false_or] at hleft hright
      exact hknown.union (is_apply operator (is_foldCase hleft ha') (is_foldCase hright hb'))

theorem is_addAllTo {flags : Flags} : forall (items : List SetTree) {known s : CharSet}
    {K : Char -> Prop}, known.Is K -> addAllTo flags known items = .ok s ->
      s.Is fun c => K c ∨ AnyHolds flags items c
  | [], known, s, K, hknown, h => by
      cases h
      simpa [AnyHolds] using hknown
  | item :: items, known, s, K, hknown, h => by
      rcases bind_eq_ok.mp h with ⟨t, ht, hs⟩
      have hitems := is_addAllTo items (is_addTo item hknown ht) hs
      simpa only [AnyHolds, or_assoc] using hitems

end

/-!
## Trees
-/

def Flags.Dot (flags : Flags) (c : Char) : Prop :=
  flags.dotAll ∨ (c ≠ '\n' ∧ (flags.returns -> c ≠ '\r'))

/-- A match of one character of a kind. -/
def OneOf (cs : List Char) (S : Char -> Prop) (i j : Nat) : Prop :=
  (exists c, cs[i]? = some c ∧ S c) ∧ j = i + 1

mutual

/-- The flags behind a tree.  Those that are set inside of a group end with it. -/
def Tree.flagsBehind (flags : Flags) : Tree -> Flags
  | .flags _ marks => flags.set marks
  | .repeated _ _ body => body.flagsBehind flags
  | .branches _ items | .sequence _ items => flagsBehindAll flags items
  | .nothing _ | .letter _ _ | .dot _ | .anchor _ _ | .shorthand _ _ | .property _ _
  | .bracket _ _ _ | .group _ _ _ _ => flags

def flagsBehindAll (flags : Flags) : List Tree -> Flags
  | [] => flags
  | item :: items => flagsBehindAll (item.flagsBehind flags) items

end

mutual

def Tree.Matches (cs : List Char) (flags : Flags) : Tree -> Nat -> Nat -> Prop
  | .nothing _, i, j | .flags _ _, i, j => i = j
  | .letter _ l, i, j => OneOf cs (flags.SameLetter l.char) i j
  | .dot _, i, j => OneOf cs flags.Dot i j
  | .anchor _ a, i, j => (anchorMeaning flags a).Holds cs i ∧ i = j
  | .shorthand _ s, i, j => OneOf cs (flags.Negates s.negated s.name.Has) i j
  | .property _ _, _, _ => False
  | .bracket _ negated body, i, j =>
      OneOf cs (flags.Negates negated (flags.Folds (body.Holds flags))) i j
  | .repeated _ times body, i, j => Repeats times (body.Matches cs flags) i j
  | .group _ marks _ body, i, j => body.Matches cs (flags.set marks) i j
  | .branches _ items, i, j => AnyTreeMatches cs flags items i j
  | .sequence _ items, i, j => AllTreesMatch cs flags items i j

def AllTreesMatch (cs : List Char) (flags : Flags) : List Tree -> Nat -> Nat -> Prop
  | [], i, j => i = j
  | item :: items, i, j =>
      exists k, item.Matches cs flags i k ∧
        AllTreesMatch cs (item.flagsBehind flags) items k j

def AnyTreeMatches (cs : List Char) (flags : Flags) : List Tree -> Nat -> Nat -> Prop
  | [], _, _ => False
  | item :: items, i, j =>
      item.Matches cs flags i j ∨ AnyTreeMatches cs (item.flagsBehind flags) items i j

end

section Trees

variable {cs : List Char} {flags : Flags} {span : Stretch} {p : Pattern} {l : Letter}

theorem matches_ofSet_is {unicode : Bool} {s : CharSet} {S : Char -> Prop} (h : s.Is S) :
    (ofSet unicode s).Matches cs = OneOf cs S := by
  rw [matches_ofSet]
  funext i j
  simp only [Matches, Before, h.holds_iff, OneOf]

theorem matches_letterMeaning (h : letterMeaning flags span l = .ok p) :
    p.Matches cs = OneOf cs (flags.SameLetter l.char) := by
  rw [letterMeaning] at h
  split at h
  · cases h
  · cases hcase : flags.anyCase with
    | false =>
        rw [hcase] at h
        cases h
        funext i j
        rw [Matches, cons_prefix_drop, and_iff_left List.nil_prefix]
        simp only [OneOf, Before, Flags.SameLetter, hcase, beq_iff_eq, eq_comm (b := l.char),
          Bool.false_eq_true, if_false]
        rfl
    | true =>
        simp only [hcase, Bool.not_true, Bool.false_eq_true, if_false] at h
        split at h
        · cases h
        · cases h
          have hone := is_ofRanges [⟨l.char.toNat, l.char.toNat⟩]
          refine matches_ofSet_is ⟨hone.sound.foldAscii, fun c => ?_⟩
          rw [CharSet.holds_foldAscii hone.sound, Flags.SameLetter, hcase, if_pos rfl]
          simp only [hone.holds_iff, covers_cons, not_covers_nil, or_false, Range.has_toNat]
          constructor
          · intro h
            rcases h with ⟨d, hcd, rfl⟩
            exact hcd.symm
          · intro hsame
            exact ⟨l.char, hsame.symm, rfl⟩

theorem matches_dotMeaning (h : dotMeaning flags span = .ok p) :
    p.Matches cs = OneOf cs flags.Dot := by
  rw [dotMeaning] at h
  split at h
  · cases h
  · cases h
    have hout : forall ranges, (CharSet.complement CharSet.characters (.ofRanges ranges)).Is
        fun c => ¬ Covers ranges c.toNat := by
      intro ranges
      have hranges := is_ofRanges ranges
      refine ⟨hranges.sound.complement CharSet.closed_characters, fun c => ?_⟩
      rw [CharSet.holds_complement, hranges.holds_iff,
        and_iff_right (CharSet.covers_characters c)]
    rw [matches_ofSet_is (hout _)]
    refine congrArg (OneOf cs) (funext fun c => ?_)
    have hfeed : Range.Has ⟨0xa, 0xa⟩ c.toNat <-> c = '\n' := @Range.has_toNat c '\n'
    have hreturn : Range.Has ⟨0xd, 0xd⟩ c.toNat <-> c = '\r' := @Range.has_toNat c '\r'
    cases hall : flags.dotAll <;> cases hreturns : flags.returns <;>
      simp [Flags.Dot, hall, hreturns, hfeed, hreturn]

end Trees

mutual

theorem meaning_spec (cs : List Char) : forall (tree : Tree) {flags behind : Flags} {p : Pattern},
    tree.meaning flags = .ok (p, behind) ->
      behind = tree.flagsBehind flags ∧ p.Matches cs = tree.Matches cs flags
  | .nothing _, flags, behind, p, h => by
      cases h
      exact ⟨rfl, rfl⟩
  | .flags _ marks, flags, behind, p, h => by
      cases h
      exact ⟨rfl, rfl⟩
  | .letter span l, flags, behind, p, h => by
      rcases bind_eq_ok.mp h with ⟨q, hq, hp⟩
      cases hp
      exact ⟨rfl, matches_letterMeaning hq⟩
  | .dot span, flags, behind, p, h => by
      rcases bind_eq_ok.mp h with ⟨q, hq, hp⟩
      cases hp
      exact ⟨rfl, matches_dotMeaning hq⟩
  | .anchor _ a, flags, behind, p, h => by
      cases h
      exact ⟨rfl, rfl⟩
  | .shorthand span s, flags, behind, p, h => by
      rcases bind_eq_ok.mp h with ⟨set, hset, hp⟩
      cases hp
      exact ⟨rfl, matches_ofSet_is (is_shorthandSet hset)⟩
  | .property _ _, _, _, _, h => by cases h
  | .bracket span negated body, flags, behind, p, h => by
      rcases bind_eq_ok.mp h with ⟨inner, hinner, hrest⟩
      rcases bind_eq_ok.mp hrest with ⟨set, hset, hp⟩
      cases hp
      have hbody := is_addTo body is_empty hinner
      simp only [false_or] at hbody
      exact ⟨rfl, matches_ofSet_is (is_finishSet hbody hset)⟩
  | .repeated _ times body, flags, behind, p, h => by
      rcases bind_eq_ok.mp h with ⟨⟨q, after⟩, hq, hp⟩
      cases hp
      have hbody := meaning_spec cs body hq
      refine ⟨hbody.1, ?_⟩
      rw [matches_repeatedBy]
      funext i j
      rw [Matches, hbody.2]
      rfl
  | .group _ marks captures body, flags, behind, p, h => by
      rcases bind_eq_ok.mp h with ⟨⟨q, after⟩, hq, hp⟩
      cases hp
      have hbody := meaning_spec cs body hq
      refine ⟨rfl, ?_⟩
      cases captures with
      | false => exact hbody.2
      | true => exact hbody.2
  | .branches _ items, flags, behind, p, h => by
      rcases bind_eq_ok.mp h with ⟨⟨ps, after⟩, hps, hp⟩
      cases hp
      have hitems := meanings_spec cs items hps
      exact ⟨hitems.1, (matches_anyOf ps).trans hitems.2.2⟩
  | .sequence _ items, flags, behind, p, h => by
      rcases bind_eq_ok.mp h with ⟨⟨ps, after⟩, hps, hp⟩
      cases hp
      have hitems := meanings_spec cs items hps
      exact ⟨hitems.1, (matches_inRow ps).trans hitems.2.1⟩

theorem meanings_spec (cs : List Char) : forall (items : List Tree) {flags behind : Flags}
    {ps : List Pattern}, meanings flags items = .ok (ps, behind) ->
      behind = flagsBehindAll flags items ∧ MatchesAll cs ps = AllTreesMatch cs flags items ∧
        MatchesAny cs ps = AnyTreeMatches cs flags items
  | [], flags, behind, ps, h => by
      cases h
      exact ⟨rfl, rfl, rfl⟩
  | item :: items, flags, behind, ps, h => by
      rcases bind_eq_ok.mp h with ⟨⟨p, after⟩, hp, hrest⟩
      rcases bind_eq_ok.mp hrest with ⟨⟨qs, last⟩, hqs, hps⟩
      cases hps
      have hitem := meaning_spec cs item hp
      rw [hitem.1] at hqs
      have hitems := meanings_spec cs items hqs
      refine ⟨hitems.1, ?_, ?_⟩
      · funext i j
        simp only [MatchesAll, AllTreesMatch, hitem.2, hitems.2.1]
      · funext i j
        simp only [MatchesAny, AnyTreeMatches, hitem.2, hitems.2.2]

end

/-!
## Patterns of texts
-/

/-- A tree occurs in a text if some part of the text is a match. -/
def Tree.Occurs (tree : Tree) (text : String) : Prop :=
  exists i j, i ≤ text.toList.length ∧ tree.Matches text.toList .standard i j

theorem ofText_eq_ok {pattern : String} {p : Pattern} (h : ofText pattern = .ok p) :
    exists tree q behind, Tree.read pattern = .ok tree ∧
      tree.meaning .standard = .ok (q, behind) ∧ p = q.unnested := by
  rw [ofText] at h
  split at h
  · cases h
  · rename_i tree hread
    split at h
    · cases h
    · rename_i q behind hmeaning
      refine ⟨tree, q, behind, hread, hmeaning, ?_⟩
      rw [check] at h
      split at h
      · cases h
        rfl
      · split at h
        · cases h
          rfl
        · cases h

/-- A pattern that a text writes is found where its tree occurs, and nowhere else. -/
theorem occursIn_ofText {pattern : String} {p : Pattern} (h : ofText pattern = .ok p) :
    exists tree, Tree.read pattern = .ok tree ∧
      forall text, p.occursIn text <-> tree.Occurs text := by
  rcases ofText_eq_ok h with ⟨tree, q, behind, hread, hmeaning, rfl⟩
  refine ⟨tree, hread, fun text => ?_⟩
  rw [occursIn_iff, Occurs, Tree.Occurs, matches_unnested, (meaning_spec _ tree hmeaning).2]

end Pattern
end LoopNest
