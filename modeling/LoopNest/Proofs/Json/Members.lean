import LoopNest.Proofs.Json.Grammar
import Mathlib.Data.List.Forall2

/-!
# Members of objects

The object that is read keeps one member for each name, the one that is written last, and it keeps
them in the order of their names.  So neither the order of the members nor a member that is written
over later can be told from its value.
-/

namespace LoopNest
namespace Ordered

variable {alpha : Type} {key name : String} {x : alpha} {entries table : List (String × alpha)}

/-!
## Tables
-/

theorem lookup_cons :
    ((key, x) :: entries).lookup name = if name = key then some x else entries.lookup name := by
  split
  · rename_i heq
    rw [heq, List.lookup_cons_self]
  · rename_i hne
    rw [List.lookup_cons, beq_false_of_ne hne]

theorem lookup_put (value : alpha) :
    (put key value entries).lookup name =
      if name = key then some value else entries.lookup name := by
  rw [put]
  induction entries with
  | nil => rw [alter, lookup_cons]
  | cons entry entries ih =>
      rcases entry with ⟨k, x⟩
      rw [alter]
      split
      · rw [lookup_cons]
      · split
        · rename_i heq
          rw [lookup_cons, lookup_cons, heq]
          split
          · rfl
          · rfl
        · rename_i hne
          rw [lookup_cons, lookup_cons, ih]
          split
          · rename_i heq
            rw [if_neg (heq ▸ Ne.symm hne)]
          · rfl

theorem lookup_eq_none_of_lt (h : forall k, k ∈ entries.map Prod.fst -> name < k) :
    entries.lookup name = none := by
  rw [List.lookup_eq_none_iff]
  intro entry hentry
  have hlt := h entry.1 (List.mem_map_of_mem hentry)
  rw [bne_iff_ne]
  rintro rfl
  exact String.lt_irrefl _ hlt

/-- The first name of a table is not below all names of another one with the same entries. -/
theorem not_lt_of_lookup_eq {l : String} {y : alpha}
    (htable : (((l, y) :: table).map Prod.fst).Pairwise (· < ·))
    (h : ((key, x) :: entries).lookup key = ((l, y) :: table).lookup key) : ¬ key < l := by
  intro hlt
  rw [List.map_cons, List.pairwise_cons] at htable
  have hnone : ((l, y) :: table).lookup key = none := by
    apply lookup_eq_none_of_lt
    rw [List.map_cons, List.forall_mem_cons]
    exact ⟨hlt, fun m hm => String.lt_trans hlt (htable.1 m hm)⟩
  rw [← h, List.lookup_cons_self] at hnone
  cases hnone

theorem mem_iff_lookup (h : (entries.map Prod.fst).Pairwise (· < ·)) :
    (name, x) ∈ entries <-> entries.lookup name = some x := by
  induction entries with
  | nil => simp
  | cons entry entries ih =>
      rcases entry with ⟨k, y⟩
      rw [List.map_cons, List.pairwise_cons] at h
      rw [List.mem_cons, lookup_cons, ih h.2, Prod.mk.injEq]
      split
      · rename_i heq
        rw [heq, lookup_eq_none_of_lt h.1]
        simp [eq_comm]
      · rename_i hne
        simp [hne]

theorem eq_of_lookup_eq (hentries : (entries.map Prod.fst).Pairwise (· < ·))
    (htable : (table.map Prod.fst).Pairwise (· < ·))
    (h : forall name, entries.lookup name = table.lookup name) : entries = table := by
  induction entries generalizing table with
  | nil =>
      cases table with
      | nil => rfl
      | cons entry table =>
          have hfirst := h entry.1
          rw [List.lookup_cons_self] at hfirst
          cases hfirst
  | cons entry entries ih =>
      cases table with
      | nil =>
          have hfirst := h entry.1
          rw [List.lookup_cons_self] at hfirst
          cases hfirst
      | cons entry' table =>
          rcases entry with ⟨k, x⟩
          rcases entry' with ⟨l, y⟩
          have hkl := not_lt_of_lookup_eq htable (h k)
          have hlk := not_lt_of_lookup_eq hentries (h l).symm
          cases String.le_antisymm (String.not_lt.mp hlk) (String.not_lt.mp hkl)
          have hvalue := h k
          rw [List.lookup_cons_self, List.lookup_cons_self] at hvalue
          cases hvalue
          rw [List.map_cons, List.pairwise_cons] at hentries htable
          rw [ih hentries.2 htable.2]
          intro name
          by_cases hname : name = k
          · rw [hname, lookup_eq_none_of_lt hentries.1, lookup_eq_none_of_lt htable.1]
          · have hrest := h name
            rw [lookup_cons, lookup_cons, if_neg hname, if_neg hname] at hrest
            exact hrest

end Ordered

/-!
## Objects
-/

namespace JsonValue

variable {members members' table : List (String × JsonValue)} {name : String}

/-- The table that is made of members one after another. -/
def tableOf (members table : List (String × JsonValue)) : List (String × JsonValue) :=
  members.foldl (fun table entry => Ordered.put entry.1 entry.2 table) table

theorem sorted_tableOf (h : (table.map Prod.fst).Pairwise (· < ·)) :
    ((tableOf members table).map Prod.fst).Pairwise (· < ·) := by
  induction members generalizing table with
  | nil => exact h
  | cons entry members ih => exact ih (Ordered.sorted_alter h)

theorem lookup_tableOf :
    (tableOf members table).lookup name = (members.reverse.lookup name).or (table.lookup name) := by
  induction members generalizing table with
  | nil => simp [tableOf]
  | cons entry members ih =>
      rcases entry with ⟨k, x⟩
      show (tableOf members (Ordered.put k x table)).lookup name = _
      rw [ih, Ordered.lookup_put, List.reverse_cons, List.lookup_append, Option.or_assoc,
        Ordered.lookup_cons]
      split
      · rfl
      · simp

theorem member?_tableOf : member? (tableOf members []) name = members.reverse.lookup name := by
  simp [member?, lookup_tableOf]

/-- Of an object only the member that is written last counts for each name. -/
theorem ofMembers_congr
    (h : forall name, members.reverse.lookup name = members'.reverse.lookup name) :
    ofMembers members = ofMembers members' := by
  have heq : tableOf members [] = tableOf members' [] := by
    apply Ordered.eq_of_lookup_eq (sorted_tableOf List.Pairwise.nil)
      (sorted_tableOf List.Pairwise.nil)
    intro name
    rw [lookup_tableOf, lookup_tableOf, h]
  exact congrArg JsonValue.object heq

end JsonValue

/-!
## Trees
-/

namespace JsonTree

variable {depth : Nat} {name : String} {tree tree' : JsonTree} {v v' : JsonValue}
  {trees : List (String × JsonTree)} {members : List (String × JsonValue)}

theorem lookup_mapM (h : trees.mapM (memberValue? depth) = some members) :
    (members.lookup name).map some = (trees.lookup name).map (value? depth) := by
  induction trees generalizing members with
  | nil =>
      cases h
      rfl
  | cons m trees ih =>
      simp only [List.mapM_cons, Option.pure_def, Option.bind_eq_bind, Option.bind_eq_some_iff,
        Option.some.injEq] at h
      rcases h with ⟨w, hw, ms, hms, rfl⟩
      rcases m with ⟨k, tree⟩
      rcases Option.map_eq_some_iff.mp hw with ⟨v, hv, rfl⟩
      simp only [Ordered.lookup_cons]
      split
      · exact congrArg some hv.symm
      · exact ih hms

theorem mapM_reverse {alpha beta : Type} {f : alpha -> Option beta} {xs : List alpha}
    {ys : List beta} (h : xs.mapM f = some ys) : xs.reverse.mapM f = some ys.reverse := by
  induction xs generalizing ys with
  | nil =>
      cases h
      rfl
  | cons x xs ih =>
      simp only [List.mapM_cons, Option.pure_def, Option.bind_eq_bind, Option.bind_eq_some_iff,
        Option.some.injEq] at h
      rcases h with ⟨y, hy, zs, hzs, rfl⟩
      simp [List.mapM_append, ih hzs, hy]

/-- The members of the value of an object are the values of the members written last. -/
theorem members_of_value (h : value? (depth + 1) (.object trees) = some v) :
    exists table, v = .object table ∧ (table.map Prod.fst).Pairwise (· < ·) ∧
      forall name,
        (JsonValue.member? table name).map some = (last? trees name).map (value? depth) := by
  rw [value?] at h
  rcases Option.map_eq_some_iff.mp h with ⟨members, hmembers, rfl⟩
  refine ⟨JsonValue.tableOf members [], rfl, JsonValue.sorted_tableOf List.Pairwise.nil,
    fun name => ?_⟩
  rw [JsonValue.member?_tableOf]
  exact lookup_mapM (mapM_reverse hmembers)

/-- Trees that differ in the order of members and in members that are written over later. -/
inductive Alike : JsonTree -> JsonTree -> Prop where
  | refl (tree : JsonTree) : Alike tree tree
  | list {items items' : List JsonTree} :
      List.Forall₂ Alike items items' -> Alike (.list items) (.list items')
  | object {members members' : List (String × JsonTree)} :
      (forall name, Option.Rel Alike (last? members name) (last? members' name)) ->
      Alike (.object members) (.object members')

theorem values_eq_of_alike {items items' : List JsonTree} {vs vs' : List JsonValue}
    (h : List.Forall₂ Alike items items')
    (ih : forall {tree tree' v v'}, Alike tree tree' -> value? depth tree = some v ->
      value? depth tree' = some v' -> v = v')
    (hvs : items.mapM (value? depth) = some vs) (hvs' : items'.mapM (value? depth) = some vs') :
    vs = vs' := by
  induction h generalizing vs vs' with
  | nil =>
      cases hvs
      cases hvs'
      rfl
  | cons hitem _ ihItems =>
      simp only [List.mapM_cons, Option.pure_def, Option.bind_eq_bind, Option.bind_eq_some_iff,
        Option.some.injEq] at hvs hvs'
      rcases hvs with ⟨w, hw, ws, hws, rfl⟩
      rcases hvs' with ⟨w', hw', ws', hws', rfl⟩
      rw [ih hitem hw hw', ihItems hws hws']

theorem member_eq_of_alike {last last' : Option JsonTree} {w w' : Option JsonValue}
    (h : Option.Rel Alike last last')
    (ih : forall {tree tree' v v'}, Alike tree tree' -> value? depth tree = some v ->
      value? depth tree' = some v' -> v = v')
    (hw : w.map some = last.map (value? depth)) (hw' : w'.map some = last'.map (value? depth)) :
    w = w' := by
  cases h with
  | none =>
      rw [Option.map_none, Option.map_eq_none_iff] at hw hw'
      rw [hw, hw']
  | some halike =>
      rcases Option.map_eq_some_iff.mp hw with ⟨v, rfl, hv⟩
      rcases Option.map_eq_some_iff.mp hw' with ⟨v', rfl, hv'⟩
      rw [ih halike hv.symm hv'.symm]

theorem value_eq_of_alike (h : Alike tree tree') (hv : value? depth tree = some v)
    (hv' : value? depth tree' = some v') : v = v' := by
  induction depth generalizing tree tree' v v' with
  | zero =>
      cases h with
      | refl => exact Option.some.inj (hv.symm.trans hv')
      | list _ => simp [value?] at hv
      | object _ => simp [value?] at hv
  | succ depth ih =>
      cases h with
      | refl => exact Option.some.inj (hv.symm.trans hv')
      | list hitems =>
          rw [value?] at hv hv'
          rcases Option.map_eq_some_iff.mp hv with ⟨vs, hvs, rfl⟩
          rcases Option.map_eq_some_iff.mp hv' with ⟨vs', hvs', rfl⟩
          rw [values_eq_of_alike hitems ih hvs hvs']
      | object hmembers =>
          rw [value?] at hv hv'
          rcases Option.map_eq_some_iff.mp hv with ⟨ms, hms, rfl⟩
          rcases Option.map_eq_some_iff.mp hv' with ⟨ms', hms', rfl⟩
          apply JsonValue.ofMembers_congr
          intro name
          exact member_eq_of_alike (hmembers name) ih (lookup_mapM (mapM_reverse hms))
            (lookup_mapM (mapM_reverse hms'))

end JsonTree
end LoopNest
