import LoopNest.Text.Basic
import Mathlib.Data.List.Lex
import Mathlib.Data.List.Basic

/-!
# Bytes of texts

The order of texts by their bytes, and the places behind a number of bytes.
-/

namespace LoopNest
namespace Text

/-!
## The order of encoded texts

Texts are compared character by character, and encoded texts byte by byte.  The orders agree: the
encodings of two characters differ at a place that both have, and the greater character has the
greater byte there.
-/

def utf8 (text : String) : List UInt8 :=
  text.toUTF8.data.toList

theorem utf8_eq (text : String) : utf8 text = text.toList.flatMap String.utf8EncodeChar := by
  rw [utf8, String.toUTF8, ← String.utf8Encode_toList, List.utf8Encode, List.data_toByteArray]

/-- The first place where the lists differ is a place of both, and the first list is smaller
there. -/
def Precedes : List UInt8 -> List UInt8 -> Prop
  | a :: as, b :: bs => a < b ∨ a = b ∧ Precedes as bs
  | _, _ => False

/-- What follows does not matter then. -/
theorem Precedes.append_lt {as bs : List UInt8} (h : Precedes as bs) (front back : List UInt8) :
    as ++ front < bs ++ back := by
  induction as generalizing bs with
  | nil => cases h
  | cons a as ih =>
      cases bs with
      | nil => cases h
      | cons b bs =>
          rw [List.cons_append, List.cons_append, List.cons_lt_cons_iff]
          rcases h with hlt | ⟨heq, hrest⟩
          · exact Or.inl hlt
          · exact Or.inr ⟨heq, ih hrest⟩

theorem ofNat_lt_ofNat {m k : Nat} (hm : m < 256) (hk : k < 256) :
    UInt8.ofNat m < UInt8.ofNat k <-> m < k := by
  rw [UInt8.lt_iff_toNat_lt, UInt8.toNat_ofNat_of_lt' hm, UInt8.toNat_ofNat_of_lt' hk]

theorem ofNat_eq_ofNat {m k : Nat} (hm : m < 256) (hk : k < 256) :
    UInt8.ofNat m = UInt8.ofNat k <-> m = k := by
  rw [← UInt8.toNat_inj, UInt8.toNat_ofNat_of_lt' hm, UInt8.toNat_ofNat_of_lt' hk]

theorem precedes_utf8EncodeChar {c d : Char} (h : c < d) :
    Precedes (String.utf8EncodeChar c) (String.utf8EncodeChar d) := by
  have hlt : c.val.toNat < d.val.toNat := UInt32.lt_iff_toNat_lt.mp (Char.lt_def.mp h)
  have hbound : d.val.toNat < 1114112 := by
    rcases d.valid with hd | hd
    · exact Nat.lt_trans hd (by decide)
    · exact hd.2
  have h4096 (v : Nat) : v / 4096 = v / 64 / 64 := by omega
  have h262144 (v : Nat) : v / 262144 = v / 64 / 64 / 64 := by omega
  simp only [String.utf8EncodeChar, h4096, h262144]
  generalize c.val.toNat = m at hlt
  generalize d.val.toNat = k at hlt hbound
  -- one case for each length of either encoding; the longer one has the greater first byte
  repeat' split
  all_goals
    simp (disch := omega) only [Precedes, ofNat_lt_ofNat, ofNat_eq_ofNat]
    omega

theorem utf8EncodeChar_ne_nil (c : Char) : String.utf8EncodeChar c ≠ [] := by
  simp only [String.utf8EncodeChar]
  repeat' split
  all_goals exact List.cons_ne_nil _ _

/-- The encoding of the smaller text is the smaller one. -/
theorem utf8_lt {s t : String} (h : s < t) : utf8 s < utf8 t := by
  rw [utf8_eq, utf8_eq]
  change s.toList < t.toList at h
  generalize s.toList = cs at h
  generalize t.toList = ds at h
  induction h with
  | nil =>
      rename_i d ds
      rcases List.exists_cons_of_ne_nil (utf8EncodeChar_ne_nil d) with ⟨b, bs, hbytes⟩
      rw [List.flatMap_cons, hbytes]
      exact List.nil_lt_cons _ _
  | rel hlt => exact (precedes_utf8EncodeChar hlt).append_lt _ _
  | cons _ ih =>
      rw [List.flatMap_cons, List.flatMap_cons]
      exact List.append_left_lt ih

/-!
## Offsets

An offset into a text is the number of bytes in front of a place between two of its characters.
Behind the end of the text and inside a character there is no offset.
-/

/-- What stands behind the first `offset` bytes, unless the text is shorter or a character reaches
across the place. -/
def behind? : List Char -> (offset : Nat) -> Option (List Char)
  | cs, 0 => some cs
  | [], _ + 1 => none
  | c :: cs, offset + 1 =>
      if offset + 1 < c.utf8Size then none else behind? cs (offset + 1 - c.utf8Size)

variable {c : Char} {cs rest : List Char} {offset : Nat}

theorem byteCount_cons (c : Char) (cs : List Char) :
    byteCount (c :: cs) = c.utf8Size + byteCount cs :=
  rfl

theorem byteCount_append (front back : List Char) :
    byteCount (front ++ back) = byteCount front + byteCount back := by
  induction front with
  | nil => simp [byteCount]
  | cons c front ih => rw [List.cons_append, byteCount_cons, byteCount_cons, ih, Nat.add_assoc]

theorem utf8ByteSize_ofList (cs : List Char) :
    (String.ofList cs).utf8ByteSize = byteCount cs := by
  induction cs with
  | nil => rfl
  | cons c cs ih =>
      rw [String.ofList_cons, String.utf8ByteSize_append, String.utf8ByteSize_singleton, ih,
        byteCount_cons]

theorem behind?_byteCount (front rest : List Char) :
    behind? (front ++ rest) (byteCount front) = some rest := by
  induction front with
  | nil => simp [byteCount, behind?]
  | cons c front ih =>
      have hsize := c.utf8Size_pos
      obtain ⟨k, hk⟩ : exists k, byteCount (c :: front) = k + 1 :=
        Nat.exists_eq_add_one.mpr (by rw [byteCount_cons]; omega)
      rw [hk, List.cons_append, behind?, ← hk, byteCount_cons, if_neg (by omega),
        Nat.add_sub_cancel_left]
      exact ih

theorem behind?_eq_some :
    behind? cs offset = some rest <->
      exists front, cs = front ++ rest ∧ byteCount front = offset := by
  constructor
  · intro h
    fun_induction behind? cs offset with
    | case1 cs =>
        cases h
        exact ⟨[], rfl, rfl⟩
    | case2 => cases h
    | case3 => cases h
    | case4 c cs offset hle ih =>
        rcases ih h with ⟨front, rfl, hfront⟩
        exact ⟨c :: front, rfl, by rw [byteCount_cons]; omega⟩
  · rintro ⟨front, rfl, rfl⟩
    exact behind?_byteCount front rest

theorem le_of_behind? (h : behind? cs offset = some rest) : offset ≤ byteCount cs := by
  rcases behind?_eq_some.mp h with ⟨front, rfl, rfl⟩
  rw [byteCount_append]
  exact Nat.le_add_right _ _

/-- Behind a character there is the next offset. -/
theorem behind?_next (h : behind? cs offset = some (c :: rest)) :
    behind? cs (offset + c.utf8Size) = some rest := by
  rcases behind?_eq_some.mp h with ⟨front, rfl, rfl⟩
  refine behind?_eq_some.mpr ⟨front ++ [c], by simp, ?_⟩
  rw [byteCount_append]
  rfl

/-- The offsets are the valid positions. -/
theorem isValid_iff {text : String} :
    String.Pos.Raw.IsValid text ⟨offset⟩ <->
      exists rest, behind? text.toList offset = some rest := by
  rw [String.Pos.Raw.isValid_iff_exists_append]
  constructor
  · rintro ⟨front, back, rfl, hoffset⟩
    refine ⟨back.toList, behind?_eq_some.mpr ⟨front.toList, String.toList_append, ?_⟩⟩
    rw [← utf8ByteSize_ofList, String.ofList_toList]
    exact (congrArg String.Pos.Raw.byteIdx hoffset).symm
  · rintro ⟨rest, hrest⟩
    rcases behind?_eq_some.mp hrest with ⟨front, htext, rfl⟩
    refine ⟨String.ofList front, String.ofList rest, ?_, ?_⟩
    · rw [← String.ofList_append, ← htext, String.ofList_toList]
    · rw [String.rawEndPos, utf8ByteSize_ofList]

end Text
end LoopNest
