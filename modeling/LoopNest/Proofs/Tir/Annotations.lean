import LoopNest.Proofs.Tir.Lexemes
import LoopNest.Proofs.Tir.Writing
import Mathlib.Data.List.Induction
import Mathlib.Data.Nat.Digits.Defs

/-!
# Annotations

Which texts name a type is told without a reader.  A vector is written as the letter `v`, a lane
count in decimal digits and the name of an element.  The count may have any number of zeros in
front of it; what matters is its value, which is at least one and fits into a word of 32 bits.
-/

namespace LoopNest

theorem Decimal.ofDigits_concat (digits : List Char) (d : Char) :
    ofDigits (digits ++ [d]) = 10 * ofDigits digits + digitValue d := by
  simp [ofDigits]

/-- The value of a numeral is the sum of its digits by place. -/
theorem Decimal.ofDigits_eq (digits : List Char) :
    ofDigits digits = Nat.ofDigits 10 (digits.reverse.map digitValue) := by
  induction digits using List.reverseRecOn with
  | nil => rfl
  | append_singleton digits d ih =>
      rw [ofDigits_concat, ih, List.reverse_concat, List.map_cons, Nat.ofDigits_cons, Nat.add_comm]

theorem Decimal.isDigit_iff {d : Char} : d.isDigit = true <-> '0' ≤ d ∧ d ≤ '9' := by
  rw [Char.isDigit, Bool.and_eq_true, decide_eq_true_eq, decide_eq_true_eq]
  rfl

namespace ValueType

variable {text element : String} {lanes : Nat} {type : ValueType}

/-- The text is a vector of `lanes` elements: the letter `v`, the lane count in decimal digits and
the name of an element. -/
structure VectorText (text : String) (lanes : Nat) : Prop where
  parts : exists digits element, text.toList = 'v' :: (digits ++ element.toList) ∧
    digits ≠ [] ∧ (forall d, d ∈ digits -> '0' ≤ d ∧ d ≤ '9') ∧
    Nat.ofDigits 10 (digits.reverse.map Decimal.digitValue) = lanes ∧ element ∈ elementNames
  positive : 1 ≤ lanes
  bounded : lanes ≤ 2 ^ 32 - 1

theorem le_pred_laneBound : lanes ≤ 2 ^ 32 - 1 <-> lanes < laneBound := by
  have hbound : laneBound = 2 ^ 32 - 1 + 1 := rfl
  rw [hbound, Nat.lt_succ_iff]

theorem vectorText_ofDigits {digits : List Char} (hne : digits ≠ [])
    (hdigits : forall d, d ∈ digits -> d.isDigit = true) (hpos : 0 < Decimal.ofDigits digits)
    (hlt : Decimal.ofDigits digits < laneBound) (hmem : element ∈ elementNames) :
    VectorText (String.ofList ('v' :: (digits ++ element.toList)))
      (Decimal.ofDigits digits) where
  parts := by
    refine ⟨digits, element, String.toList_ofList, hne, ?_, ?_, hmem⟩
    · exact fun d hd => Decimal.isDigit_iff.mp (hdigits d hd)
    · exact (Decimal.ofDigits_eq digits).symm
  positive := hpos
  bounded := le_pred_laneBound.mpr hlt

theorem VectorText.typeName (h : VectorText text lanes) : Tir.TypeName text (.vector lanes) := by
  rcases h.parts with ⟨digits, element, htext, hne, hdigits, hvalue, hmem⟩
  have hlanes := (Decimal.ofDigits_eq digits).trans hvalue
  have hname := Tir.TypeName.vector hne (fun d hd => Decimal.isDigit_iff.mpr (hdigits d hd))
    (hlanes ▸ h.positive) (hlanes ▸ le_pred_laneBound.mp h.bounded) hmem
  rwa [hlanes, ← htext, String.ofList_toList] at hname

/-- A lane count in its shortest form is read back. -/
theorem vectorText_toString (hpos : 1 ≤ lanes) (hle : lanes ≤ 2 ^ 32 - 1)
    (hmem : element ∈ elementNames) : VectorText ("v" ++ toString lanes ++ element) lanes where
  parts := by
    refine ⟨Nat.toDigits 10 lanes, element, ?_, Nat.toDigits_ne_nil, ?_, ?_, hmem⟩
    · simp [Nat.toList_repr]
    · intro d hd
      exact Decimal.isDigit_iff.mp (Nat.isDigit_of_mem_toDigits (by decide) (by decide) hd)
    · rw [← Decimal.ofDigits_eq, Decimal.ofDigits_toDigits]
  positive := hpos
  bounded := hle

def Annotates (text : String) : ValueType -> Prop
  | vector lanes => VectorText text lanes
  | scalar => text ∈ elementNames
  | void => text = "void"
  | aggregate => text = "agg"
  | label => False

theorem ofAnnotation?_iff : ofAnnotation? text = some type <-> Annotates text type := by
  rw [Tir.ofAnnotation?_eq_some]
  constructor
  · intro h
    cases h with
    | vector hne hdigits hpos hlt hmem => exact vectorText_ofDigits hne hdigits hpos hlt hmem
    | scalar hmem => exact hmem
    | void | aggregate => rfl
  · intro h
    cases type with
    | vector lanes => exact VectorText.typeName h
    | scalar => exact Tir.TypeName.scalar h
    | void => exact Eq.symm h ▸ Tir.TypeName.void
    | aggregate => exact Eq.symm h ▸ Tir.TypeName.aggregate
    | label => cases h

theorem ofAnnotation?_eq_none :
    ofAnnotation? text = none <-> forall type, ¬ Annotates text type := by
  rw [Option.eq_none_iff_forall_not_mem]
  exact forall_congr' fun type => not_congr ofAnnotation?_iff

/-- An annotation names a vector if it is the text of one and a scalar if it is the name of an
element; besides, only `void` and `agg` name a type.  Every lane count can be written. -/
theorem annotation_language (text : String) :
    (forall lanes, ofAnnotation? text = some (.vector lanes) <-> VectorText text lanes) ∧
    (ofAnnotation? text = some .scalar <->
      text ∈ ["i1", "i8", "i16", "i32", "i64", "f16", "f32", "f64", "ptr"]) ∧
    (ofAnnotation? text = some .void <-> text = "void") ∧
    (ofAnnotation? text = some .aggregate <-> text = "agg") ∧
    (ofAnnotation? text = none <-> (forall lanes, ¬ VectorText text lanes) ∧
      text ∉ ["i1", "i8", "i16", "i32", "i64", "f16", "f32", "f64", "ptr"] ∧
      text ≠ "void" ∧ text ≠ "agg") ∧
    forall lanes element, 1 ≤ lanes -> lanes ≤ 2 ^ 32 - 1 -> element ∈ elementNames ->
      ofAnnotation? ("v" ++ toString lanes ++ element) = some (.vector lanes) := by
  refine ⟨fun lanes => ofAnnotation?_iff, ofAnnotation?_iff, ofAnnotation?_iff, ofAnnotation?_iff,
    ?_, fun lanes element hpos hle hmem =>
      ofAnnotation?_iff.mpr (vectorText_toString hpos hle hmem)⟩
  rw [ofAnnotation?_eq_none]
  constructor
  · intro hnone
    exact ⟨fun lanes => hnone (.vector lanes), hnone .scalar, hnone .void, hnone .aggregate⟩
  · intro hcase type
    rcases hcase with ⟨hvector, hscalar, hvoid, haggregate⟩
    cases type with
    | vector lanes => exact hvector lanes
    | scalar => exact hscalar
    | void => exact hvoid
    | aggregate => exact haggregate
    | label => exact id

theorem annotation_language_greatest :
    1 ≤ 4294967295 ∧ 4294967295 ≤ 2 ^ 32 - 1 ∧ "ptr" ∈ elementNames ∧
      ofAnnotation? "v4294967295ptr" = some (.vector 4294967295) := by
  have hmem : "ptr" ∈ elementNames := by decide
  rcases annotation_language "v4294967295ptr" with ⟨_, _, _, _, _, hwritten⟩
  exact ⟨by decide, by decide, hmem, hwritten 4294967295 "ptr" (by decide) (by decide) hmem⟩

example : ofAnnotation? "v0004294967295ptr" = some (.vector 4294967295) ∧
    ofAnnotation? "v4294967296ptr" = none ∧ ofAnnotation? "v٤i32" = none := by
  decide

end ValueType
end LoopNest
