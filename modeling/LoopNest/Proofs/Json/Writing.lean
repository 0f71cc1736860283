import LoopNest.Json.Value
import LoopNest.Proofs.Json.Documents
import LoopNest.Proofs.Json.Members
import Mathlib.Algebra.Group.Nat.Defs
import Mathlib.Algebra.Ring.Int.Defs

/-!
# Writing documents

What is written for a value is a document whose tree has this value again, whatever the names and
the texts are.  Only the members of its objects come back in the order of their names.
-/

namespace LoopNest
namespace JsonValue

open JsonTree JsonReader

/-!
## Values that can be written
-/

/-- The value can be written and read again: it has at most `depth` lists and objects around a
scalar, its integers fit 64 bits, and none of its numbers is a double. -/
def Writable : (depth : Nat) -> JsonValue -> Prop
  | _, .null => True
  | _, .bool _ => True
  | _, .integer value => -(2 ^ 63) ≤ value ∧ value < 2 ^ 64
  | _, .double _ => False
  | _, .text _ => True
  | 0, .list _ => False
  | depth + 1, .list items => forall item, item ∈ items -> Writable depth item
  | 0, .object _ => False
  | depth + 1, .object members => forall m, m ∈ members -> Writable depth m.2

mutual

/-- The value with the members of its objects in the order of their names. -/
def sorted : JsonValue -> JsonValue
  | .null => .null
  | .bool value => .bool value
  | .integer value => .integer value
  | .double value => .double value
  | .text value => .text value
  | .list items => .list (sortedItems items)
  | .object members => .ofMembers (sortedMembers members)

def sortedItems : List JsonValue -> List JsonValue
  | [] => []
  | item :: items => sorted item :: sortedItems items

def sortedMembers : List (String × JsonValue) -> List (String × JsonValue)
  | [] => []
  | (name, value) :: members => (name, sorted value) :: sortedMembers members

end

mutual

/-- The tree of the document that is written for a value. -/
def tree : JsonValue -> JsonTree
  | .null => .null
  | .bool value => .bool value
  | .integer value => .number ⟨decide (value < 0), Nat.toDigits 10 value.natAbs, none, none⟩
  | .double _ => .null
  | .text value => .text value
  | .list items => .list (treeItems items)
  | .object members => .object (treeMembers members)

def treeItems : List JsonValue -> List JsonTree
  | [] => []
  | item :: items => tree item :: treeItems items

def treeMembers : List (String × JsonValue) -> List (String × JsonTree)
  | [] => []
  | (name, value) :: members => (name, tree value) :: treeMembers members

end

theorem sortedItems_eq_map (items : List JsonValue) : sortedItems items = items.map sorted := by
  induction items with
  | nil => rfl
  | cons item items ih => rw [sortedItems, ih, List.map_cons]

theorem sortedMembers_eq_map (members : List (String × JsonValue)) :
    sortedMembers members = members.map fun m => (m.1, sorted m.2) := by
  induction members with
  | nil => rfl
  | cons m members ih => rw [sortedMembers, ih, List.map_cons]

variable {depth indent : Nat} {v : JsonValue}

/-!
## Strings
-/

theorem hexDigit?_digitChar {n : Nat} (h : n < 16) :
    JsonText.hexDigit? (Nat.digitChar n) = some n := by
  have hall : forall k : Fin 16, JsonText.hexDigit? (Nat.digitChar k) = some k.val := by decide
  exact hall ⟨n, h⟩

/-- A control character is written as a unit of four digits. -/
theorem escapeText_unit {c : Char} (h : c.toNat < 0x20) :
    JsonText.EscapeText (['u', '0', '0'] ++ hexPair c.toNat) c := by
  have hvalue : JsonText.hexValue? '0' '0' (Nat.digitChar (c.toNat / 16))
      (Nat.digitChar (c.toNat % 16)) = some c.toNat := by
    have hzero : JsonText.hexDigit? '0' = some 0 := by decide
    simp only [JsonText.hexValue?, hzero, hexDigit?_digitChar (n := c.toNat / 16) (by lia),
      hexDigit?_digitChar (n := c.toNat % 16) (by lia), Option.bind_eq_bind, Option.bind_some,
      Option.pure_def, Option.some.injEq]
    lia
  have hleading : JsonText.isLeading c.toNat = false := by
    simp only [JsonText.isLeading, Bool.and_eq_false_iff, decide_eq_false_iff_not]
    lia
  have htrailing : JsonText.isTrailing c.toNat = false := by
    simp only [JsonText.isTrailing, Bool.and_eq_false_iff, decide_eq_false_iff_not]
    lia
  have hescape := JsonText.EscapeText.unit hvalue hleading htrailing
  rwa [Char.ofNat_toNat] at hescape

theorem charactersText_escapeChar {text cs : List Char} (c : Char)
    (h : JsonText.CharactersText text cs) :
    JsonText.CharactersText (escapeChar c ++ text) (c :: cs) := by
  have hletter {letter : Char} (hmem : (letter, c) ∈ JsonText.escapes) :
      JsonText.CharactersText (['\\', letter] ++ text) (c :: cs) :=
    JsonText.CharactersText.escape (JsonText.EscapeText.letter hmem) h
  unfold escapeChar
  iterate 7
    split
    · rename_i heq
      subst heq
      exact hletter (by decide)
  split
  · rename_i hcontrol
    exact JsonText.CharactersText.escape (escapeText_unit hcontrol) h
  · rename_i hquote hslash _ _ _ _ _ hcontrol
    exact JsonText.CharactersText.plain hquote hslash (Nat.le_of_not_lt hcontrol) h

theorem charactersText_flatMap (cs : List Char) :
    JsonText.CharactersText (cs.flatMap escapeChar) cs := by
  induction cs with
  | nil => exact JsonText.CharactersText.nil
  | cons c cs ih => exact charactersText_escapeChar c ih

theorem stringText_printText (text : String) : JsonText.StringText (printText text) text := by
  have htext := JsonText.StringText.mk (charactersText_flatMap text.toList)
  rwa [String.ofList_toList] at htext

/-!
## Integers
-/

theorem toDigits_head {n : Nat} (h : 0 < n) : (Nat.toDigits 10 n).head? ≠ some '0' := by
  induction n using Nat.strongRecOn with
  | _ n ih =>
      rw [Nat.toDigits_eq_if (by decide)]
      split
      · rename_i hn
        have hall : forall k : Fin 10, 0 < k.val -> Nat.digitChar k ≠ '0' := by decide
        simpa using hall ⟨n, hn⟩ h
      · rename_i hn
        have hrest := ih (n / 10) (by lia) (by lia)
        rwa [List.head?_append_of_ne_nil _ Nat.toDigits_ne_nil]

theorem wholeText_toDigits (n : Nat) : Numeral.WholeText (Nat.toDigits 10 n) := by
  refine ⟨⟨Nat.toDigits_ne_nil, fun c hc =>
    Nat.isDigit_of_mem_toDigits (by decide) (by decide) hc⟩, fun hzero => ?_⟩
  cases n with
  | zero => rfl
  | succ n => exact absurd hzero (toDigits_head (Nat.succ_pos n))

theorem unsignedText_toDigits (negative : Bool) (n : Nat) :
    Numeral.UnsignedText (Nat.toDigits 10 n) ⟨negative, Nat.toDigits 10 n, none, none⟩ := by
  have htext : Numeral.UnsignedText (Nat.toDigits 10 n ++ ([] ++ []))
      ⟨negative, Nat.toDigits 10 n, none, none⟩ :=
    Numeral.UnsignedText.mk (wholeText_toDigits n) Numeral.FractionText.none
      Numeral.ExponentText.none
  simpa using htext

theorem valueText_integer {k : Int} (h : -(2 ^ 63) ≤ k ∧ k < 2 ^ 64) :
    ValueText (toString k).toList (tree (.integer k)) ∧
      (tree (.integer k)).value? depth = some (.integer k) := by
  have hrepr : (toString k).toList = k.repr.toList := rfl
  have hbound : Numeral.significandBound = 2 ^ 64 := rfl
  rw [hrepr, Int.repr_eq_if, tree, value?]
  split
  · rename_i hk
    have hnatAbs : k.natAbs = k.toNat := by lia
    rw [decide_eq_false (Int.not_lt.mpr hk), hnatAbs]
    refine ⟨?_, ?_⟩
    · rw [Nat.toList_repr]
      exact ValueText.number (Numeral.NumeralText.unsigned rfl (unsignedText_toDigits false _))
    · have hlt : k.toNat < Numeral.significandBound := by lia
      simp only [Numeral.value?, Decimal.ofDigits_toDigits, Option.isNone_none, Bool.and_self,
        Bool.not_false, Bool.true_and, hlt, decide_true, if_true, Int.toNat_of_nonneg hk]
  · rename_i hk
    have hnatAbs : k.natAbs = (-k).toNat := by lia
    rw [decide_eq_true (Int.lt_of_not_ge hk), hnatAbs]
    refine ⟨?_, ?_⟩
    · rw [String.toList_append, Nat.toList_repr]
      exact ValueText.number (Numeral.NumeralText.negative rfl (unsignedText_toDigits true _))
    · have hpos : 0 < (-k).toNat := by lia
      have hle : (-k).toNat ≤ Nat.pow 2 63 := by
        have hpow : Nat.pow 2 63 = 2 ^ 63 := rfl
        lia
      have hback : -(((-k).toNat : Nat) : Int) = k := by lia
      simp only [Numeral.value?, Decimal.ofDigits_toDigits, Option.isNone_none, Bool.and_self,
        Bool.not_true, Bool.and_false, Bool.false_and, Bool.false_eq_true, if_false, hpos, hle,
        decide_true, if_true, hback]

/-!
## Values
-/

theorem blanks_newLine (n : Nat) : Blanks (newLine n) := by
  intro c hc
  rcases List.mem_cons.mp hc with rfl | hc
  · decide
  · rw [(List.mem_replicate.mp hc).2]
    decide

/-- The text is one of the tree of a value, and it is read as this value again. -/
def Reads (depth : Nat) (cs : List Char) (v : JsonValue) : Prop :=
  ValueText cs (tree v) ∧ (tree v).value? depth = some (sorted v)

theorem tail_printItems {items : List JsonValue}
    (ih : forall item, item ∈ items -> Reads depth (print (indent + 1) item) item) :
    Tail (ElementText ValueText) (printItems (indent + 1) items ++ newLine indent)
        (treeItems items) ∧
      (treeItems items).mapM (value? depth) = some (sortedItems items) := by
  induction items with
  | nil => exact ⟨Tail.close (blanks_newLine indent), rfl⟩
  | cons item items ihItems =>
      rw [List.forall_mem_cons] at ih
      rcases ih.1 with ⟨htext, hvalue⟩
      rcases ihItems ih.2 with ⟨htail, hvalues⟩
      have hmore := htail.separated fun _ => elementText_front (blanks_newLine (indent + 1)) htext
      refine ⟨?_, by simp [treeItems, sortedItems, hvalue, hvalues]⟩
      simpa [printItems, treeItems] using Tail.comma blanks_nil hmore

theorem reads_list {items : List JsonValue}
    (ih : forall item, item ∈ items -> Reads depth (print (indent + 1) item) item) :
    Reads (depth + 1) (print indent (.list items)) (.list items) := by
  cases items with
  | nil => exact ⟨ValueText.emptyList blanks_nil, rfl⟩
  | cons item items =>
      rw [List.forall_mem_cons] at ih
      rcases ih.1 with ⟨htext, hvalue⟩
      rcases tail_printItems ih.2 with ⟨htail, hvalues⟩
      have hitems := htail.separated fun _ => elementText_front (blanks_newLine (indent + 1)) htext
      refine ⟨?_, ?_⟩
      · simpa [print, tree, treeItems] using ValueText.list hitems
      · simp [value?, tree, treeItems, sorted, sortedItems, hvalue, hvalues]

theorem memberText_front {before text after : List Char} {tree : JsonTree} (name : String)
    (hbefore : Blanks before) (htext : ValueText text tree) (hafter : Blanks after) :
    MemberText ValueText (before ++ printText name ++ [':', ' '] ++ text ++ after)
      (name, tree) := by
  have hblank : Blanks [' '] := by
    intro c hc
    rw [List.mem_singleton.mp hc]
    decide
  have hmember := MemberText.mk hbefore (stringText_printText name) blanks_nil
    (ElementText.mk hblank htext hafter)
  simpa using hmember

theorem tail_printMembers {members : List (String × JsonValue)}
    (ih : forall m, m ∈ members -> Reads depth (print (indent + 1) m.2) m.2) :
    Tail (MemberText ValueText) (printMembers (indent + 1) members ++ newLine indent)
        (treeMembers members) ∧
      (treeMembers members).mapM (memberValue? depth) = some (sortedMembers members) := by
  induction members with
  | nil => exact ⟨Tail.close (blanks_newLine indent), rfl⟩
  | cons m members ihMembers =>
      rw [List.forall_mem_cons] at ih
      rcases m with ⟨name, v⟩
      rcases ih.1 with ⟨htext, hvalue⟩
      rcases ihMembers ih.2 with ⟨htail, hvalues⟩
      have hmore := htail.separated fun _ =>
        memberText_front name (blanks_newLine (indent + 1)) htext
      refine ⟨?_, by simp [treeMembers, sortedMembers, memberValue?, hvalue, hvalues]⟩
      simpa [printMembers, treeMembers] using Tail.comma blanks_nil hmore

theorem reads_object {members : List (String × JsonValue)}
    (ih : forall m, m ∈ members -> Reads depth (print (indent + 1) m.2) m.2) :
    Reads (depth + 1) (print indent (.object members)) (.object members) := by
  cases members with
  | nil => exact ⟨ValueText.emptyObject blanks_nil, rfl⟩
  | cons m members =>
      rw [List.forall_mem_cons] at ih
      rcases m with ⟨name, v⟩
      rcases ih.1 with ⟨htext, hvalue⟩
      rcases tail_printMembers ih.2 with ⟨htail, hvalues⟩
      have hmembers := htail.separated fun _ =>
        memberText_front name (blanks_newLine (indent + 1)) htext
      refine ⟨?_, ?_⟩
      · simpa [print, tree, treeMembers] using ValueText.object hmembers
      · show (List.mapM (memberValue? depth) _).map ofMembers = _
        simp [treeMembers, sorted, sortedMembers, memberValue?, hvalue, hvalues]

theorem reads_scalar (h : Writable 0 v) : Reads depth (print indent v) v := by
  cases v with
  | null => exact ⟨ValueText.null, by rw [tree, value?]; rfl⟩
  | bool value =>
      cases value with
      | true => exact ⟨ValueText.true, by rw [tree, value?]; rfl⟩
      | false => exact ⟨ValueText.false, by rw [tree, value?]; rfl⟩
  | integer value => exact valueText_integer h
  | double value => exact absurd h id
  | text value =>
      exact ⟨ValueText.text (stringText_printText value), by rw [tree, value?]; rfl⟩
  | list items => exact absurd h id
  | object members => exact absurd h id

theorem reads_print (h : Writable depth v) : Reads depth (print indent v) v := by
  induction depth generalizing indent v with
  | zero => exact reads_scalar h
  | succ depth ih =>
      cases v with
      | list items => exact reads_list fun item hitem => ih (h item hitem)
      | object members => exact reads_object fun m hm => ih (h m hm)
      | null | bool | integer | double | text => exact reads_scalar h

/-- What is written for a value is a document with its tree. -/
theorem documentText_display (h : Writable greatestDepth v) :
    DocumentText v.display.toList (tree v) ∧ (tree v).value? greatestDepth = some v.sorted := by
  have hreads : Reads greatestDepth (print 0 v) v := reads_print h
  have hdocument := ElementText.mk blanks_nil hreads.1 blanks_nil
  rw [List.nil_append, List.append_nil] at hdocument
  rw [display, String.toList_ofList]
  exact ⟨hdocument, hreads.2⟩

/-- What is written for a value is read as this value. -/
theorem read_display (h : Writable greatestDepth v) : JsonValue.read v.display = .ok v.sorted :=
  JsonValue.read_eq_ok.mpr ⟨tree v, documentText_display h⟩

/-!
## Members that are read
-/

variable {members : List (String × JsonValue)} {w x : JsonValue} {name : String} {n : Nat}

/-- The value is an object with this member. -/
def Has (v : JsonValue) (name : String) (x : JsonValue) : Prop :=
  exists members, v = .object members ∧ member? members name = some x

theorem Has.unique (h : v.Has name w) (h' : v.Has name x) : w = x := by
  rcases h with ⟨members, rfl, hw⟩
  rcases h' with ⟨members', heq, hx⟩
  cases heq
  exact Option.some.inj (hw.symm.trans hx)

theorem lookup_map_sorted (members : List (String × JsonValue)) :
    (members.map fun m => (m.1, sorted m.2)).lookup name = (members.lookup name).map sorted := by
  induction members with
  | nil => rfl
  | cons m members ih =>
      rw [List.map_cons, Ordered.lookup_cons, Ordered.lookup_cons, ih]
      split
      · rfl
      · rfl

theorem has_sorted_iff :
    (sorted (.object members)).Has name x <->
      exists w, members.reverse.lookup name = some w ∧ sorted w = x := by
  have hmember : member? (tableOf (sortedMembers members) []) name =
      (members.reverse.lookup name).map sorted := by
    rw [member?_tableOf, sortedMembers_eq_map, ← List.map_reverse, lookup_map_sorted]
  rw [← Option.map_eq_some_iff, ← hmember]
  constructor
  · rintro ⟨table, heq, hx⟩
    cases heq
    exact hx
  · intro hx
    exact ⟨_, rfl, hx⟩

theorem has_sorted (h : members.reverse.lookup name = some w) (hw : sorted w = x) :
    (sorted (.object members)).Has name x :=
  has_sorted_iff.mpr ⟨w, h, hw⟩

theorem name_mem_of_has_sorted (h : (sorted (.object members)).Has name x) :
    name ∈ members.map Prod.fst := by
  rcases has_sorted_iff.mp h with ⟨w, hw, _⟩
  rcases List.lookup_eq_some_iff.mp hw with ⟨before, after, hmembers, _⟩
  have hmem : (name, w) ∈ members.reverse := by
    rw [hmembers]
    exact List.mem_append_right _ List.mem_cons_self
  exact List.mem_map.mpr ⟨(name, w), List.mem_reverse.mp hmem, rfl⟩

/-!
## Scalars and texts
-/

theorem writable_bool (value : Bool) : Writable depth (.bool value) := by
  rw [Writable]
  trivial

theorem writable_text (value : String) : Writable depth (.text value) := by
  rw [Writable]
  trivial

theorem writable_natural (h : n < 2 ^ 64) : Writable depth (.integer n) := by
  rw [Writable]
  lia

theorem writable_texts (texts : List String) :
    Writable (depth + 1) (.list (texts.map .text)) := by
  intro item hitem
  rcases List.mem_map.mp hitem with ⟨text, _, rfl⟩
  exact writable_text text

theorem sorted_texts (texts : List String) :
    sorted (.list (texts.map .text)) = .list (texts.map .text) := by
  rw [sorted, sortedItems_eq_map, List.map_map]
  rfl

end JsonValue
end LoopNest
