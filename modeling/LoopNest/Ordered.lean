/-!
# Sorted lists

Sets of numbers are increasing lists and tables are lists of entries with increasing keys.
Inserting keeps the order, so equal contents are equal lists.
-/

namespace LoopNest
namespace Ordered

/-- Adds a number to an increasing list that does not hold it yet. -/
def insert (x : Nat) : List Nat -> List Nat
  | [] => [x]
  | y :: ys =>
      if x < y then x :: y :: ys
      else if x = y then y :: ys
      else y :: insert x ys

def insertAll (xs : List Nat) (set : List Nat) : List Nat :=
  xs.foldl (fun set x => insert x set) set

/-- Replaces the entry of a key by a value that may depend on the old one. -/
def alter {alpha : Type} (key : String) (f : Option alpha -> alpha) :
    List (String × alpha) -> List (String × alpha)
  | [] => [(key, f none)]
  | (k, x) :: entries =>
      if key < k then (key, f none) :: (k, x) :: entries
      else if key = k then (k, f (some x)) :: entries
      else (k, x) :: alter key f entries

/-- Puts an entry into a table; an old entry of the key is forgotten. -/
def put {alpha : Type} (key : String) (value : alpha) (table : List (String × alpha)) :
    List (String × alpha) :=
  alter key (fun _ => value) table

/-!
## The order is kept
-/

theorem mem_insert {x y : Nat} {set : List Nat} : y ∈ insert x set <-> y = x ∨ y ∈ set := by
  induction set with
  | nil => simp [insert]
  | cons z zs ih =>
      simp only [insert]
      split
      · simp
      · split
        · rename_i heq
          simp [heq]
        · simp only [List.mem_cons, ih, or_left_comm]

theorem sorted_insert {x : Nat} {set : List Nat} (h : set.Pairwise (· < ·)) :
    (insert x set).Pairwise (· < ·) := by
  induction set with
  | nil => simp [insert]
  | cons y ys ih =>
      rcases List.pairwise_cons.mp h with ⟨hy, hys⟩
      simp only [insert]
      split
      · rename_i hxy
        refine List.pairwise_cons.mpr ⟨fun z hz => ?_, h⟩
        rcases List.mem_cons.mp hz with rfl | hz
        · exact hxy
        · exact Nat.lt_trans hxy (hy z hz)
      · split
        · exact h
        · refine List.pairwise_cons.mpr ⟨fun z hz => ?_, ih hys⟩
          rcases mem_insert.mp hz with rfl | hz
          · omega
          · exact hy z hz

theorem sorted_insertAll (xs : List Nat) {set : List Nat} (h : set.Pairwise (· < ·)) :
    (insertAll xs set).Pairwise (· < ·) := by
  induction xs generalizing set with
  | nil => exact h
  | cons x xs ih => exact ih (sorted_insert h)

section

variable {alpha : Type} {key : String} {f : Option alpha -> alpha}
  {entries : List (String × alpha)} {entry : String × alpha}

/-- An entry of a changed table is an old one, or the changed one, which was made from
nothing or from the old entry of its key. -/
theorem mem_alter (h : entry ∈ alter key f entries) :
    entry ∈ entries ∨ entry = (key, f none) ∨
      exists x, (key, x) ∈ entries ∧ entry = (key, f (some x)) := by
  induction entries with
  | nil => exact Or.inr (Or.inl (List.mem_singleton.mp h))
  | cons first entries ih =>
      rcases first with ⟨k, x⟩
      simp only [alter] at h
      split at h
      · rcases List.mem_cons.mp h with heq | h
        · exact Or.inr (Or.inl heq)
        · exact Or.inl h
      · split at h
        · rename_i hkey
          subst hkey
          rcases List.mem_cons.mp h with heq | h
          · exact Or.inr (Or.inr ⟨x, List.mem_cons_self, heq⟩)
          · exact Or.inl (List.mem_cons_of_mem _ h)
        · rcases List.mem_cons.mp h with heq | h
          · exact Or.inl (heq ▸ List.mem_cons_self)
          · rcases ih h with hold | hnew | ⟨y, hy, hchanged⟩
            · exact Or.inl (List.mem_cons_of_mem _ hold)
            · exact Or.inr (Or.inl hnew)
            · exact Or.inr (Or.inr ⟨y, List.mem_cons_of_mem _ hy, hchanged⟩)

theorem key_of_mem_alter {k : String} (h : k ∈ (alter key f entries).map Prod.fst) :
    k = key ∨ k ∈ entries.map Prod.fst := by
  rcases List.mem_map.mp h with ⟨entry, hentry, rfl⟩
  rcases mem_alter hentry with hold | rfl | ⟨x, _, rfl⟩
  · exact Or.inr (List.mem_map_of_mem hold)
  · exact Or.inl rfl
  · exact Or.inl rfl

theorem sorted_alter (h : (entries.map Prod.fst).Pairwise (· < ·)) :
    ((alter key f entries).map Prod.fst).Pairwise (· < ·) := by
  induction entries with
  | nil => simp [alter]
  | cons first entries ih =>
      rcases first with ⟨k, x⟩
      rcases List.pairwise_cons.mp h with ⟨hk, hentries⟩
      simp only [alter]
      split
      · rename_i hlt
        refine List.pairwise_cons.mpr ⟨fun l hl => ?_, h⟩
        rcases List.mem_cons.mp hl with rfl | hl
        · exact hlt
        · exact String.lt_trans hlt (hk l hl)
      · split
        · exact h
        · rename_i hlt hne
          refine List.pairwise_cons.mpr ⟨fun l hl => ?_, ih hentries⟩
          rcases key_of_mem_alter hl with rfl | hl
          · exact Std.lt_of_le_of_ne (String.not_lt.mp hlt) fun heq => hne heq.symm
          · exact hk l hl

end

end Ordered
end LoopNest
