import LoopNest.Proofs.Config.Decoding
import LoopNest.Proofs.Json.Members

/-!
# Shapes of members

What a configuration asks of its members is told of the document as it is written: which numerals
are natural numbers below a bound, and what lists and tables are made of.  A value is decoded if and
only if it was written in the shape that its decoder asks for.
-/

namespace LoopNest
namespace JsonTree

def IsNatural (bound : Nat) (tree : JsonTree) : Prop :=
  exists digits, tree = .number ⟨false, digits, none, none⟩ ∧ Decimal.ofDigits digits < bound

def IsFlag (tree : JsonTree) : Prop :=
  exists value, tree = .bool value

def IsText (tree : JsonTree) : Prop :=
  exists value, tree = .text value

def IsListOf (Item : JsonTree -> Prop) (tree : JsonTree) : Prop :=
  exists items, tree = .list items ∧ forall item, item ∈ items -> Item item

/-- Of a name that is written twice the last member counts. -/
def IsTableOf (Item : JsonTree -> Prop) (tree : JsonTree) : Prop :=
  exists members, tree = .object members ∧
    forall name item, last? members name = some item -> Item item

end JsonTree

/-!
## Kinds of values
-/

namespace JsonTree

variable {depth : Nat} {tree : JsonTree} {v : JsonValue}

/-- Trees and the kinds of their values. -/
inductive Kind : JsonTree -> JsonValue -> Prop where
  | null : Kind .null .null
  | bool (value : Bool) : Kind (.bool value) (.bool value)
  | integer (numeral : Numeral) (value : Int) : Kind (.number numeral) (.integer value)
  | double (numeral : Numeral) (value : Float) : Kind (.number numeral) (.double value)
  | text (value : String) : Kind (.text value) (.text value)
  | list (items : List JsonTree) (values : List JsonValue) : Kind (.list items) (.list values)
  | object (members : List (String × JsonTree)) (table : List (String × JsonValue)) :
      Kind (.object members) (.object table)

theorem kind_of_numeral {numeral : Numeral} (h : numeral.value? = some v) :
    Kind (.number numeral) v := by
  rw [Numeral.value?] at h
  simp only at h
  split at h
  · cases h
    exact Kind.integer _ _
  · split at h
    · cases h
      exact Kind.integer _ _
    · rcases Option.map_eq_some_iff.mp h with ⟨x, _, rfl⟩
      exact Kind.double _ _

theorem kind_of_value (h : value? depth tree = some v) : Kind tree v := by
  cases tree with
  | null =>
      rw [value?] at h
      cases h
      exact Kind.null
  | bool value =>
      rw [value?] at h
      cases h
      exact Kind.bool value
  | number numeral =>
      rw [value?] at h
      exact kind_of_numeral h
  | text value =>
      rw [value?] at h
      cases h
      exact Kind.text value
  | list items =>
      cases depth with
      | zero => simp [value?] at h
      | succ depth =>
          rw [value?] at h
          rcases Option.map_eq_some_iff.mp h with ⟨vs, _, rfl⟩
          exact Kind.list items vs
  | object members =>
      cases depth with
      | zero => simp [value?] at h
      | succ depth =>
          rcases members_of_value h with ⟨table, rfl, _⟩
          exact Kind.object members table

end JsonTree

namespace TargetConfig

open JsonValue JsonTree

variable {alpha : Type} {decode : JsonValue -> Except JsonMismatch alpha} {Shape : JsonTree -> Prop}
  {depth bound : Nat} {tree : JsonTree} {v : JsonValue}

/-- The decoder takes the values of the trees of a shape. -/
def Fits (decode : JsonValue -> Except JsonMismatch alpha) (Shape : JsonTree -> Prop) : Prop :=
  forall {depth tree v}, value? depth tree = some v -> ((exists x, decode v = .ok x) <-> Shape tree)

/-!
## Scalars
-/

theorem value_natural {numeral : Numeral} (hbound : bound ≤ Numeral.significandBound)
    (h : numeral.value? = some v) :
    (exists n : Nat, v = .integer n ∧ n < bound) <-> IsNatural bound (.number numeral) := by
  rcases numeral with ⟨negative, digits, fraction, exponent⟩
  simp only [IsNatural, JsonTree.number.injEq, Numeral.mk.injEq]
  rw [Numeral.value?] at h
  simp only at h
  split at h
  · rename_i hplain
    simp only [Bool.and_eq_true, Option.isNone_iff_eq_none, Bool.not_eq_true', decide_eq_true_eq]
      at hplain
    rcases hplain with ⟨⟨⟨rfl, rfl⟩, rfl⟩, _⟩
    cases h
    constructor
    · rintro ⟨n, hn, hlt⟩
      cases hn
      exact ⟨digits, ⟨rfl, rfl, rfl, rfl⟩, hlt⟩
    · rintro ⟨_, ⟨_, rfl, _⟩, hlt⟩
      exact ⟨_, rfl, hlt⟩
  · rename_i hplain
    have hshape : ¬ exists digits', (negative = false ∧ digits = digits' ∧ fraction = none ∧
        exponent = none) ∧ Decimal.ofDigits digits' < bound := by
      rintro ⟨_, ⟨rfl, rfl, rfl, rfl⟩, hlt⟩
      exact hplain (by simpa using Nat.lt_of_lt_of_le hlt hbound)
    refine iff_of_false ?_ hshape
    rintro ⟨n, rfl, hlt⟩
    split at h
    · simp only [Option.some.injEq, JsonValue.integer.injEq] at h
      rename_i hnegative
      simp only [Bool.and_eq_true, decide_eq_true_eq] at hnegative
      lia
    · rcases Option.map_eq_some_iff.mp h with ⟨x, _, hx⟩
      cases hx

theorem fits_natBelow (hbound : bound ≤ Numeral.significandBound) (asked : JsonKind) :
    Fits (natBelow bound asked) (IsNatural bound) := by
  intro depth tree v h
  simp only [natBelow_eq_ok]
  cases kind_of_value h with
  | integer numeral value =>
      rw [value?] at h
      exact value_natural hbound h
  | double numeral value =>
      rw [value?] at h
      exact value_natural hbound h
  | null | bool | text | list | object => simp [IsNatural]

theorem fits_asBool : Fits asBool IsFlag := by
  intro depth tree v h
  cases kind_of_value h with
  | bool value => exact iff_of_true ⟨value, rfl⟩ ⟨value, rfl⟩
  | null | integer | double | text | list | object => simp [asBool, IsFlag]

theorem fits_asText : Fits asText IsText := by
  intro depth tree v h
  cases kind_of_value h with
  | text value => exact iff_of_true ⟨value, rfl⟩ ⟨value, rfl⟩
  | null | bool | integer | double | list | object => simp [asText, IsText]

/-!
## Lists and tables
-/

theorem mapM_isOk {beta : Type} {f : JsonValue -> Except JsonMismatch beta}
    {items : List JsonTree} {vs : List JsonValue} (hfits : Fits f Shape)
    (h : items.mapM (value? depth) = some vs) :
    (exists xs, vs.mapM f = .ok xs) <-> forall item, item ∈ items -> Shape item := by
  induction items generalizing vs with
  | nil =>
      cases h
      simp [pure, Except.pure]
  | cons item items ih =>
      simp only [List.mapM_cons, Option.pure_def, Option.bind_eq_bind, Option.bind_eq_some_iff,
        Option.some.injEq] at h
      rcases h with ⟨v, hv, ws, hws, rfl⟩
      rw [List.forall_mem_cons, ← hfits hv, ← ih hws]
      simp only [List.mapM_cons, bind_eq_ok]
      constructor
      · rintro ⟨_, x, hx, xs, hxs, _⟩
        exact ⟨⟨x, hx⟩, xs, hxs⟩
      · rintro ⟨⟨x, hx⟩, xs, hxs⟩
        exact ⟨_, x, hx, xs, hxs, rfl⟩

theorem fits_asList (hfits : Fits decode Shape) : Fits (asList decode) (IsListOf Shape) := by
  intro depth tree v h
  cases kind_of_value h with
  | list items vs =>
      cases depth with
      | zero => simp [value?] at h
      | succ depth =>
          rw [value?] at h
          rcases Option.map_eq_some_iff.mp h with ⟨ws, hws, hlist⟩
          cases hlist
          simp only [asList, IsListOf, JsonTree.list.injEq, exists_eq_left']
          exact mapM_isOk hfits hws
  | null | bool | integer | double | text | object => simp [asList, IsListOf]

theorem mapM_entries_isOk {table : List (String × JsonValue)} :
    (exists xs, asTable decode (.object table) = .ok xs) <->
      forall entry, entry ∈ table -> exists x, decode entry.2 = .ok x := by
  induction table with
  | nil => simp [asTable, pure, Except.pure]
  | cons entry table ih =>
      rw [List.forall_mem_cons, ← ih]
      simp only [asTable, List.mapM_cons, bind_eq_ok]
      constructor
      · rintro ⟨_, _, ⟨x, hx, _⟩, xs, hxs, _⟩
        exact ⟨⟨x, hx⟩, xs, hxs⟩
      · rintro ⟨⟨x, hx⟩, xs, hxs⟩
        exact ⟨_, _, ⟨x, hx, rfl⟩, xs, hxs, rfl⟩

theorem fits_asTable (hfits : Fits decode Shape) : Fits (asTable decode) (IsTableOf Shape) := by
  intro depth tree v h
  cases kind_of_value h with
  | object members table =>
      cases depth with
      | zero => simp [value?] at h
      | succ depth =>
          rcases members_of_value h with ⟨_, heq, hsorted, hlast⟩
          cases heq
          simp only [IsTableOf, JsonTree.object.injEq, exists_eq_left', mapM_entries_isOk]
          constructor
          · intro htable name item hitem
            have hname := hlast name
            rw [hitem, Option.map_some] at hname
            rcases Option.map_eq_some_iff.mp hname with ⟨value, hmember, hvalue⟩
            exact (hfits hvalue.symm).mp
              (htable (name, value) ((Ordered.mem_iff_lookup hsorted).mpr hmember))
          · rintro hmembers ⟨name, value⟩ hentry
            have hname := hlast name
            rw [member?, (Ordered.mem_iff_lookup hsorted).mp hentry, Option.map_some] at hname
            rcases Option.map_eq_some_iff.mp hname.symm with ⟨item, hitem, hvalue⟩
            exact (hfits hvalue).mpr (hmembers name item hitem)
  | null | bool | integer | double | text | list => simp [asTable, IsTableOf]

end TargetConfig
end LoopNest
