import LoopNest.Proofs.Flow.Laminar
import Mathlib.Data.List.Induction

/-!
# The tables of a forest

A forest is built from the list of parents: children are listed by filtering it, depths by
one pass over it.  For a laminar family the depth of a loop is the number of loops that
hold its header.
-/

namespace LoopNest
namespace NaturalLoop

def parents (loops : List NaturalLoop) : List (Option LoopId) :=
  loops.zipIdx.map fun entry => parent? loops entry.2 entry.1

variable {size i j : Nat} {loops : List NaturalLoop} {k l : NaturalLoop} {p q : Nat}
  {ps : List (Option LoopId)} {parent : Option LoopId}

theorem getElem?_parents (loops : List NaturalLoop) (i : LoopId) :
    (parents loops)[i]? = loops[i]?.map (parent? loops i) := by
  simp [parents, List.getElem?_map, List.getElem?_zipIdx, Option.map_map, Function.comp_def]

theorem parents_lt (h : Laminar size loops) (hi : (parents loops)[i]? = some (some j)) :
    j < i := by
  rw [getElem?_parents, Option.map_eq_some_iff] at hi
  rcases hi with ⟨l, hl, hj⟩
  exact ((h.parent?_eq_some hl).mp hj).1.1

theorem mem_children : j ∈ children ps parent <-> ps[j]? = some parent := by
  simp only [children, List.mem_map, List.mem_filter, decide_eq_true_eq]
  constructor
  · intro hcase
    rcases hcase with ⟨⟨parent', j'⟩, ⟨hmem, rfl⟩, rfl⟩
    exact List.mem_zipIdx_iff_getElem?.mp hmem
  · intro hj
    exact ⟨(parent, j), ⟨List.mem_zipIdx_iff_getElem?.mpr hj, rfl⟩, rfl⟩

theorem sorted_children (ps : List (Option LoopId)) (parent : Option LoopId) :
    (children ps parent).Pairwise (· < ·) := by
  have hsorted : ps.zipIdx.Pairwise fun x y => x.2 < y.2 := by
    rw [← List.pairwise_map, List.zipIdx_map_snd]
    exact List.pairwise_lt_range'
  exact List.pairwise_map.mpr (hsorted.filter _)

/-!
## Depths
-/

/-- The depth of a loop whose parent is known, from the depths of the loops before it. -/
def depthUnder (found : List Nat) : Option LoopId -> Nat
  | none => 1
  | some j => found.getD j 1 + 1

theorem depths_concat (ps : List (Option LoopId)) (parent : Option LoopId) :
    depths (ps ++ [parent]) = depths ps ++ [depthUnder (depths ps) parent] := by
  cases parent <;> simp [depths, depthUnder]

@[simp] theorem length_depths (ps : List (Option LoopId)) :
    (depths ps).length = ps.length := by
  induction ps using List.reverseRecOn with
  | nil => rfl
  | append_singleton ps parent ih => simp [depths_concat, ih]

/-- The depth of a top-level loop is one, that of another loop one more than its parent's. -/
theorem getElem?_depths (hps : forall i j : Nat, ps[i]? = some (some j) -> j < i)
    (hi : ps[i]? = some parent) :
    (depths ps)[i]? = some (depthUnder (depths ps) parent) := by
  induction ps using List.reverseRecOn generalizing i parent with
  | nil => cases hi
  | append_singleton ps last ih =>
      have hps' : forall i j : Nat, ps[i]? = some (some j) -> j < i := by
        intro i j hij
        apply hps i j
        rw [List.getElem?_append_left (List.getElem?_eq_some_iff.mp hij).1]
        exact hij
      have hlt : i < (ps ++ [last]).length := (List.getElem?_eq_some_iff.mp hi).1
      rw [List.length_append, List.length_singleton] at hlt
      -- a parent stands earlier, so the depth under it does not see what is appended
      have hkeep : depthUnder (depths (ps ++ [last])) parent = depthUnder (depths ps) parent := by
        cases parent with
        | none => rfl
        | some j =>
            have hj : j < (depths ps).length := by
              have hji := hps i j hi
              rw [length_depths]
              lia
            rw [depthUnder, depthUnder, depths_concat, List.getD_eq_getElem?_getD,
              List.getD_eq_getElem?_getD, List.getElem?_append_left hj]
      rw [hkeep]
      by_cases hcase : i < ps.length
      · rw [List.getElem?_append_left hcase] at hi
        rw [depths_concat, List.getElem?_append_left (by rw [length_depths]; exact hcase)]
        exact ih hps' hi
      · have hlast : i = ps.length := by lia
        subst hlast
        rw [List.getElem?_concat_length] at hi
        injection hi with hparent
        subst hparent
        rw [depths_concat, ← length_depths ps, List.getElem?_concat_length]

theorem countP_eq_succ {alpha : Type} {xs : List alpha} {x : alpha} {P Q : alpha -> Bool}
    (hnodup : xs.Nodup) (hx : x ∈ xs) (hP : P x = false)
    (hQ : forall y, y ∈ xs -> (Q y = true <-> y = x ∨ P y = true)) :
    xs.countP Q = xs.countP P + 1 := by
  induction xs with
  | nil => cases hx
  | cons z xs ih =>
      rcases List.nodup_cons.mp hnodup with ⟨hz, hnodup⟩
      have hQz := hQ z List.mem_cons_self
      by_cases hzx : z = x
      · subst hzx
        have hsame : xs.countP Q = xs.countP P := by
          apply List.countP_congr
          intro y hy
          rw [hQ y (List.mem_cons_of_mem _ hy)]
          have hyz : y ≠ z := fun heq => hz (heq ▸ hy)
          simp [hyz]
        rw [List.countP_cons_of_pos (hQz.mpr (Or.inl rfl)),
          List.countP_cons_of_neg (by rw [hP]; exact Bool.false_ne_true), hsame]
      · have hx' : x ∈ xs := (List.mem_cons.mp hx).resolve_left fun heq => hzx heq.symm
        have hrest := ih hnodup hx' fun y hy => hQ y (List.mem_cons_of_mem _ hy)
        have hQP : Q z = P z := by
          rw [Bool.eq_iff_iff, hQz]
          simp [hzx]
        rw [List.countP_cons, List.countP_cons, hrest, hQP]
        lia

/-!
## Counting the loops that hold a position
-/

/-- The number of loops that hold a position. -/
def holders (loops : List NaturalLoop) (p : Nat) : Nat :=
  loops.countP fun k => decide (p ∈ k.body)

namespace Laminar

variable (h : Laminar size loops)
include h

theorem index_inj (hi : loops[i]? = some l) (hj : loops[j]? = some l) : i = j := by
  by_contra hne
  rcases Nat.lt_or_gt_of_ne hne with hlt | hlt
  · exact lt_irrefl _ (h.header_lt hi hj hlt)
  · exact lt_irrefl _ (h.header_lt hj hi hlt)

theorem nodup : loops.Nodup :=
  h.sorted.imp fun hlt heq => by
    subst heq
    exact lt_irrefl _ hlt

omit h in
theorem holds_iff (hk : loops[j]? = some k) : Holds loops j p <-> p ∈ k.body := by
  constructor
  · intro hcase
    rcases hcase with ⟨k', hk', hp⟩
    rw [hk] at hk'
    injection hk' with heq
    rw [heq]
    exact hp
  · intro hp
    exact ⟨k, hk, hp⟩

/-- The loops that hold a position are those that hold the header of its owner. -/
theorem holders_of_owner (howner : owner? loops p = some i) (hl : loops[i]? = some l) :
    holders loops p = holders loops l.header := by
  rcases h.owner?_eq_some.mp howner with ⟨hp, hlast⟩
  rw [holds_iff hl] at hp
  apply List.countP_congr
  intro k hk
  rcases List.mem_iff_getElem?.mp hk with ⟨j, hj⟩
  rw [decide_eq_true_eq, decide_eq_true_eq, ← holds_iff hj, ← holds_iff hj]
  constructor
  · intro hjp
    exact h.holds_header_of_le hl hp hjp (hlast j hjp)
  · intro hheader
    exact h.holds_of_holds_header hl hp hheader

/-- Besides the loop itself, its header is held by the loops that its parent tells. -/
theorem holders_of_parent (hl : loops[i]? = some l) {P : NaturalLoop -> Bool}
    (hself : P l = false)
    (hholds : forall j k, loops[j]? = some k ->
      (Holds loops j l.header <-> j = i ∨ P k = true)) :
    holders loops l.header = loops.countP P + 1 := by
  apply countP_eq_succ h.nodup (List.mem_of_getElem? hl) hself
  intro k hk
  rcases List.mem_iff_getElem?.mp hk with ⟨j, hj⟩
  rw [decide_eq_true_eq, ← holds_iff hj, hholds j k hj]
  apply or_congr_left
  constructor
  · intro heq
    subst heq
    rw [hl] at hj
    injection hj with heq
    exact heq.symm
  · intro heq
    subst heq
    exact h.index_inj hj hl

theorem holders_of_top (hl : loops[i]? = some l) (htop : parent? loops i l = none) :
    holders loops l.header = 1 := by
  have hnone := (h.parent?_eq_none hl).mp htop
  rw [h.holders_of_parent hl (P := fun _ => false) rfl]
  · simp
  · intro j k _
    simp only [Bool.false_eq_true, or_false]
    constructor
    · intro hj
      by_contra hne
      exact hnone j (Nat.lt_of_le_of_ne (h.le_of_holds_header hl hj) hne) hj
    · intro heq
      subst heq
      exact h.holds_header hl

theorem holders_of_sub (hl : loops[i]? = some l) (hk : loops[j]? = some k)
    (hparent : parent? loops i l = some j) :
    holders loops l.header = holders loops k.header + 1 := by
  rcases (h.parent?_eq_some hl).mp hparent with ⟨⟨hji, hheld⟩, hlast⟩
  rw [holds_iff hk] at hheld
  apply h.holders_of_parent hl
  · rw [decide_eq_false_iff_not]
    intro hmem
    have hle := h.le_of_holds_header hk ⟨l, hl, hmem⟩
    lia
  · intro j' k' hk'
    rw [decide_eq_true_eq, ← holds_iff hk']
    constructor
    · intro hj'
      by_cases hne : j' = i
      · exact Or.inl hne
      · have hlt := Nat.lt_of_le_of_ne (h.le_of_holds_header hl hj') hne
        exact Or.inr (h.holds_header_of_le hk hheld hj' (hlast j' hlt hj'))
    · intro hcase
      rcases hcase with rfl | hj'
      · exact h.holds_header hl
      · exact h.holds_of_holds_header hk hheld hj'

/-- The depth of a loop is the number of loops that hold its header. -/
theorem depth_eq_holders (hl : loops[i]? = some l) :
    (depths (parents loops)).getD i 1 = holders loops l.header := by
  induction i using Nat.strong_induction_on generalizing l with
  | h i ih =>
      have hparent : (parents loops)[i]? = some (parent? loops i l) := by
        rw [getElem?_parents, hl]
        rfl
      rw [List.getD_eq_getElem?_getD, getElem?_depths (fun _ _ => parents_lt h) hparent]
      cases hcase : parent? loops i l with
      | none => exact (h.holders_of_top hl hcase).symm
      | some j =>
          rw [hcase] at hparent
          have hji := parents_lt h hparent
          have hlen := (List.getElem?_eq_some_iff.mp hl).1
          have hk : loops[j]? = some loops[j] := List.getElem?_eq_getElem (by lia)
          rw [h.holders_of_sub hl hk hcase]
          exact congrArg (· + 1) (ih j hji hk)

end Laminar

/-!
## The forest
-/

def ownBlocks (size : Nat) (loops : List NaturalLoop) (i : LoopId) : List Nat :=
  (List.range size).filter fun p => decide (owner? loops p = some i)

/-- The loop of the forest that belongs to a natural loop. -/
def toLoop (size : Nat) (loops : List NaturalLoop) (i : LoopId) (l : NaturalLoop) : Loop Nat where
  header := l.header
  blocks := l.body
  ownBlocks := ownBlocks size loops i
  subLoops := children (parents loops) (some i)
  parent := parent? loops i l
  depth := (depths (parents loops)).getD i 1

def owned (loops : List NaturalLoop) (positions : List Nat) : List (Nat × LoopId) :=
  positions.filterMap fun p => (owner? loops p).map fun id => (p, id)

theorem owned_by (loops : List NaturalLoop) (positions : List Nat) (i : LoopId) :
    ((owned loops positions).filter fun entry => entry.2 == i).map Prod.fst =
      positions.filter fun p => decide (owner? loops p = some i) := by
  induction positions with
  | nil => rfl
  | cons p positions ih =>
      simp only [owned] at ih ⊢
      cases howner : owner? loops p with
      | none => simp [howner, ih]
      | some j => by_cases hj : j = i <;> simp [howner, hj, ih]

theorem lookup_owned (loops : List NaturalLoop) (positions : List Nat) (p : Nat) :
    (owned loops positions).lookup p = if p ∈ positions then owner? loops p else none := by
  induction positions with
  | nil => rfl
  | cons q positions ih =>
      simp only [owned] at ih ⊢
      by_cases hpq : p = q
      · subst hpq
        cases howner : owner? loops p with
        | none => simp [howner, ih]
        | some j => simp [howner]
      · have hbeq : (p == q) = false := by simpa using hpq
        cases howner : owner? loops q with
        | none => simp [howner, ih, hpq]
        | some j => simp [howner, ih, hpq, hbeq, List.lookup_cons]

theorem get?_forest (size : Nat) (loops : List NaturalLoop) (i : LoopId) :
    (forest size loops).get? i = loops[i]?.map (toLoop size loops i) := by
  cases hl : loops[i]? with
  | none => simp [LoopForest.get?, forest, hl]
  | some l =>
      have hparent : (parents loops).getD i none = parent? loops i l := by
        rw [List.getD_eq_getElem?_getD, getElem?_parents, hl]
        rfl
      simp only [LoopForest.get?, forest, List.getElem?_map, List.getElem?_zipIdx, hl,
        Option.map_some, Nat.zero_add, toLoop, ownBlocks, ← hparent, ← owned_by]
      rfl

/-- The innermost loop of a position is its owner. -/
theorem loopFor?_forest (h : Laminar size loops) (p : Nat) :
    (forest size loops).loopFor? p = owner? loops p := by
  have hlookup : (forest size loops).loopFor? p =
      if p ∈ List.range size then owner? loops p else none := lookup_owned loops _ p
  rw [hlookup]
  by_cases hp : p < size
  · rw [if_pos (List.mem_range.mpr hp)]
  · rw [if_neg (mt List.mem_range.mp hp)]
    symm
    apply Laminar.owner?_eq_none.mpr
    intro i hcase
    rcases hcase with ⟨l, hl, hmem⟩
    exact hp (h.lt_size l (List.mem_of_getElem? hl) p hmem)

end NaturalLoop
end LoopNest
