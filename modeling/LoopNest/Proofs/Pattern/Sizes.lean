import LoopNest.Pattern.Automaton

/-!
# Sizes of automata

Building never takes states away, and it ends when the states would take too many bytes.  How
many states a pattern takes at least can be told without building anything: it has every copy
of a part that is repeated.
-/

namespace LoopNest
namespace Pattern

/-!
## Tallies
-/

/-- Building has added at least some states, and there are not too many now if there were not
too many before. -/
structure Tally.Grows (least : Nat) (t u : Tally) : Prop where
  states : t.states + least ≤ u.states
  extra : t.extra ≤ u.extra
  within : t.bytes ≤ Tally.greatestBytes -> u.bytes ≤ Tally.greatestBytes

namespace Tally

variable {t u v : Tally} {m n least states extra : Nat} {fork : Bool}

theorem Grows.refl (t : Tally) : Grows 0 t t :=
  ⟨Nat.le_refl _, Nat.le_refl _, id⟩

theorem Grows.trans (h : Grows m t u) (hu : Grows n u v) : Grows (m + n) t v where
  states := by
    have hm := h.states
    have hn := hu.states
    omega
  extra := Nat.le_trans h.extra hu.extra
  within := hu.within ∘ h.within

theorem Grows.mono (h : Grows m t u) (hle : n ≤ m) : Grows n t u :=
  ⟨Nat.le_trans (Nat.add_le_add_left hle _) h.states, h.extra, h.within⟩

theorem grows_grow (h : t.grow states extra = some u) : Grows states t u := by
  rw [grow] at h
  split at h
  · cases h
    exact ⟨Nat.le_refl _, Nat.le_add_right _ _, fun _ => by assumption⟩
  · cases h

theorem grows_link (h : t.link fork = some u) : Grows 0 t u := by
  rw [link] at h
  split at h
  · exact grows_grow h
  · cases h
    exact .refl _

end Tally

/-!
### Layouts
-/

namespace Layout

variable {l m : Layout} {slot : UInt64} {extra target number : Nat} {key : List Transition}

theorem grows_place (h : l.place slot extra key = some (number, m)) :
    Tally.Grows 0 l.tally m.tally := by
  have hadd : place.add slot extra key l = some (number, m) -> Tally.Grows 0 l.tally m.tally := by
    intro h
    rcases Option.map_eq_some_iff.mp h with ⟨t, ht, heq⟩
    cases heq
    exact (Tally.grows_grow ht).mono (Nat.zero_le 1)
  unfold place at h
  split at h
  · split at h
    · cases h
      exact .refl _
    · exact hadd h
  · exact hadd h

mutual

theorem grows_placeTree (target : Nat) : forall (tree : ByteTree) {l m : Layout} {number : Nat},
    placeTree target tree l = some (number, m) -> Tally.Grows 0 l.tally m.tally
  | .leaf, l, m, number, h => by
      cases h
      exact .refl _
  | .node ranges behind, l, m, number, h => by
      rw [placeTree] at h
      split at h
      · cases h
      · rename_i hbehind
        exact (grows_placeTrees target behind hbehind).trans (grows_place h)

theorem grows_placeTrees (target : Nat) : forall (trees : List ByteTree) {l m : Layout}
    {numbers : List Nat}, placeTrees target trees l = some (numbers, m) ->
      Tally.Grows 0 l.tally m.tally
  | [], l, m, numbers, h => by
      cases h
      exact .refl _
  | tree :: trees, l, m, numbers, h => by
      rw [placeTrees] at h
      split at h
      · cases h
      · rename_i htree
        split at h
        · cases h
        · rename_i htrees
          cases h
          exact (grows_placeTree target tree htree).trans (grows_placeTrees target trees htrees)

end

theorem grows_placeForm {form : ByteForm} (h : placeForm target form l = some (number, m)) :
    Tally.Grows 0 l.tally m.tally := by
  induction form generalizing target l with
  | nil =>
      cases h
      exact .refl _
  | cons r form ih =>
      rw [placeForm] at h
      split at h
      · cases h
      · rename_i hplace
        exact (grows_place hplace).trans (ih h)

theorem grows_placeForms {forms : List ByteForm} (h : placeForms target forms l = some m) :
    Tally.Grows 0 l.tally m.tally := by
  induction forms generalizing l with
  | nil =>
      cases h
      exact .refl _
  | cons form forms ih =>
      rw [placeForms] at h
      split at h
      · cases h
      · rename_i hform
        split at h
        · cases h
        · rename_i hlink
          exact ((grows_placeForm hform).trans (Tally.grows_link hlink)).trans (ih h)

end Layout

namespace Tally

variable {t u : Tally}

theorem grows_growForward {tree : ByteTree} (h : t.growForward tree = some u) : Grows 1 t u := by
  rw [growForward] at h
  split at h
  · cases h
  · rename_i hgrow
    rcases Option.map_eq_some_iff.mp h with ⟨⟨number, l⟩, hplace, rfl⟩
    exact (grows_grow hgrow).trans (Layout.grows_placeTree _ tree hplace)

theorem grows_growBackward {forms : List ByteForm} (h : t.growBackward forms = some u) :
    Grows 2 t u := by
  rw [growBackward] at h
  split at h
  · cases h
  · rename_i hgrow
    rcases Option.map_eq_some_iff.mp h with ⟨l, hplace, rfl⟩
    exact (grows_grow hgrow).trans (Layout.grows_placeForms hplace)

end Tally

/-!
## Parts of automata
-/

/-- What builds a part adds at least some states. -/
def Adds (least : Nat) (build : Tally -> Option Built) : Prop :=
  forall t b, build t = some b -> Tally.Grows least t b.tally

section Builds

variable {build : Tally -> Option Built} {k count extra : Nat} {b b' : Built} {t u : Tally}
  {fork consumes : Bool}

theorem grows_built {o : Option Tally} (h : Tally.built o = some b)
    (ho : forall u, o = some u -> Tally.Grows k t u) : Tally.Grows k t b.tally := by
  rcases Option.map_eq_some_iff.mp h with ⟨u, hu, rfl⟩
  exact ho u hu

theorem grows_followedByState (h : b.followedByState extra fork = some b') :
    Tally.Grows 1 b.tally b'.tally := by
  simp only [Built.followedByState, Option.bind_eq_bind, Option.bind_eq_some_iff] at h
  rcases h with ⟨t, hlink, u, hgrow, heq⟩
  cases heq
  exact (Tally.grows_link hlink).trans (Tally.grows_grow hgrow)

theorem grows_followedByCopies (hbuild : Adds k build)
    (h : b.followedByCopies build count = some b') :
    Tally.Grows (count * k) b.tally b'.tally := by
  induction count generalizing b with
  | zero =>
      cases h
      rw [Nat.zero_mul]
      exact .refl _
  | succ count ih =>
      rw [Built.followedByCopies] at h
      split at h
      · cases h
      · rename_i hlink
        split at h
        · cases h
        · rename_i hcopy
          refine (((Tally.grows_link hlink).trans (hbuild _ _ hcopy)).trans (ih h)).mono ?_
          rw [Nat.succ_mul]
          omega

theorem grows_followedByChoices (hbuild : Adds k build)
    (h : b.followedByChoices build count = some b') : Tally.Grows 0 b.tally b'.tally := by
  induction count generalizing b with
  | zero =>
      cases h
      exact .refl _
  | succ count ih =>
      rw [Built.followedByChoices] at h
      split at h
      · cases h
      · rename_i hfork
        split at h
        · cases h
        · rename_i hcopy
          exact (((grows_followedByState hfork).trans (hbuild _ _ hcopy)).trans (ih h)).mono
            (Nat.zero_le _)

theorem adds_copies (hbuild : Adds k build) : Adds (count * k) (Tally.copies build count) := by
  intro t b h
  cases count with
  | zero =>
      rw [Nat.zero_mul]
      exact grows_built h fun u hu => (Tally.grows_grow hu).mono (Nat.zero_le 1)
  | succ count =>
      rw [Tally.copies, Option.bind_eq_bind, Option.bind_eq_some_iff] at h
      rcases h with ⟨first, hfirst, hmore⟩
      refine ((hbuild _ _ hfirst).trans (grows_followedByCopies hbuild hmore)).mono ?_
      rw [Nat.succ_mul]
      omega

theorem adds_optional (hbuild : Adds k build) : Adds 0 (Tally.optional build) := by
  intro t b h
  simp only [Tally.optional, Option.bind_eq_bind, Option.bind_eq_some_iff] at h
  rcases h with ⟨u, hu, body, hbody, hlast⟩
  exact (((Tally.grows_grow hu).trans (hbuild _ _ hbody)).trans (grows_followedByState hlast)).mono
    (Nat.zero_le _)

theorem adds_many (hbuild : Adds k build) : Adds 0 (Tally.many build consumes) := by
  intro t b h
  rw [Tally.many] at h
  split at h
  · simp only [Option.bind_eq_bind, Option.bind_eq_some_iff] at h
    rcases h with ⟨u, hu, body, hbody, v, hlink, heq⟩
    cases heq
    exact (((Tally.grows_grow hu).trans (hbuild _ _ hbody)).trans (Tally.grows_link hlink)).mono
      (Nat.zero_le _)
  · simp only [Option.bind_eq_bind, Option.bind_eq_some_iff] at h
    rcases h with ⟨body, hbody, v, hlink, hlast⟩
    refine grows_built hlast fun u hu => ?_
    exact (((hbuild _ _ hbody).trans (Tally.grows_link hlink)).trans (Tally.grows_grow hu)).mono
      (Nat.zero_le _)

theorem adds_repeatedly (times : Repetition) (hbuild : Adds k build) :
    Adds (times.least * k) (Tally.repeatedly times consumes build) := by
  intro t b h
  rw [Tally.repeatedly] at h
  split at h
  · rename_i hleast _
    rw [hleast, Nat.zero_mul]
    exact adds_many hbuild t b h
  · rw [Option.bind_eq_bind, Option.bind_eq_some_iff] at h
    rcases h with ⟨first, hfirst, hlast⟩
    exact ((adds_copies hbuild t first hfirst).trans (grows_followedByState hlast)).mono
      (Nat.le_succ _)
  · split at h
    · exact adds_copies hbuild t b h
    · split at h
      · rename_i hzero
        rw [hzero.1, Nat.zero_mul]
        exact adds_optional hbuild t b h
      · simp only [Option.bind_eq_bind, Option.bind_eq_some_iff] at h
        rcases h with ⟨first, hfirst, u, hu, ahead, hahead, hlast⟩
        refine grows_built hlast fun v hv => ?_
        have hfront := (adds_copies hbuild t first hfirst).trans (Tally.grows_grow hu)
        have hback := (grows_followedByChoices hbuild hahead).trans (Tally.grows_link hv)
        exact (hfront.trans hback).mono (by omega)

theorem grows_buildBranch (hbuild : Adds k build) (h : buildBranch build t = some u) :
    Tally.Grows k t u := by
  rw [buildBranch] at h
  split at h
  · cases h
  · rename_i hbody
    split at h
    · cases h
    · rename_i hlink
      exact ((hbuild _ _ hbody).trans (Tally.grows_link hlink)).trans (Tally.grows_link h)

end Builds

/-!
## Blueprints
-/

mutual

/-- How many states a part has at least. -/
def Blueprint.fewestStates : Blueprint -> Nat
  | .fixed states _ => states
  | .tree _ => 1
  | .forms _ => 2
  | .row items => fewestOfAll items
  | .fork first second more => first.fewestStates + second.fewestStates + 2 + fewestOfAll more
  | .remembered body => body.fewestStates + 2
  | .repeated times _ body => times.least * body.fewestStates

def fewestOfAll : List Blueprint -> Nat
  | [] => 0
  | item :: items => item.fewestStates + fewestOfAll items

end

mutual

/-- A part that is built has its states, and it is within the limit. -/
theorem adds_build : forall p : Blueprint, Adds p.fewestStates p.build
  | .fixed states extra, t, b, h => grows_built h fun _ => Tally.grows_grow
  | .tree tree, t, b, h => grows_built h fun _ => Tally.grows_growForward
  | .forms forms, t, b, h => grows_built h fun _ => Tally.grows_growBackward
  | .row items, t, b, h => grows_buildRow items h
  | .fork first second more, t, b, h => by
      rw [Blueprint.build] at h
      split at h
      · cases h
      · rename_i hfirst
        split at h
        · cases h
        · rename_i hsecond
          split at h
          · cases h
          · rename_i hgrow
            refine grows_built h fun u hu => ?_
            exact (((grows_buildBranch (adds_build first) hfirst).trans
              (grows_buildBranch (adds_build second) hsecond)).trans
              (Tally.grows_grow hgrow)).trans (grows_buildBranches more hu)
  | .remembered body, t, b, h => by
      rw [Blueprint.build] at h
      split at h
      · cases h
      · rename_i hgrow
        split at h
        · cases h
        · rename_i hbody
          refine (((Tally.grows_grow hgrow).trans (adds_build body _ _ hbody)).trans
            (grows_followedByState h)).mono ?_
          rw [Blueprint.fewestStates]
          omega
  | .repeated times consumes body, t, b, h => adds_repeatedly times (adds_build body) t b h

theorem grows_buildRow : forall (items : List Blueprint) {b b' : Built},
    buildRow items b = some b' -> Tally.Grows (fewestOfAll items) b.tally b'.tally
  | [], b, b', h => by
      cases h
      exact .refl _
  | item :: items, b, b', h => by
      rw [buildRow] at h
      split at h
      · cases h
      · rename_i hlink
        split at h
        · cases h
        · rename_i hitem
          refine (((Tally.grows_link hlink).trans (adds_build item _ _ hitem)).trans
            (grows_buildRow items h)).mono ?_
          rw [fewestOfAll]
          omega

theorem grows_buildBranches : forall (items : List Blueprint) {t u : Tally},
    buildBranches items t = some u -> Tally.Grows (fewestOfAll items) t u
  | [], t, u, h => by
      cases h
      exact .refl _
  | item :: items, t, u, h => by
      rw [buildBranches] at h
      split at h
      · cases h
      · rename_i hitem
        exact (grows_buildBranch (adds_build item) hitem).trans (grows_buildBranches items h)

end

/-- An automaton that fits has room for all copies of the parts that are repeated. -/
theorem fewestStates_le_of_fits {direction : Direction} {p : Pattern} (h : p.fits direction) :
    Tally.stateBytes * (p.automaton direction).fewestStates ≤ Tally.greatestBytes := by
  rcases Option.isSome_iff_exists.mp h with ⟨b, hb⟩
  have hgrows := adds_build _ _ b hb
  have hwithin := hgrows.within (Nat.zero_le _)
  refine Nat.le_trans ?_ hwithin
  refine Nat.le_trans (Nat.mul_le_mul_left _ ?_) (Nat.le_add_right _ _)
  rw [← Nat.zero_add (p.automaton direction).fewestStates]
  exact hgrows.states

end Pattern
end LoopNest
