import LoopNest.Json.Value
import LoopNest.Text.Basic

/-!
# JSON strings

A string is written between double quotes.  A backslash opens an escape; the escape `u`
gives a UTF-16 unit in four hexadecimal digits, and two such escapes are one character if
the units are a surrogate pair.
-/

namespace LoopNest
namespace JsonText

/-!
## Units
-/

def hexDigit? (c : Char) : Option Nat :=
  if '0' ≤ c ∧ c ≤ '9' then some (c.toNat - '0'.toNat)
  else if 'a' ≤ c ∧ c ≤ 'f' then some (c.toNat - 'a'.toNat + 10)
  else if 'A' ≤ c ∧ c ≤ 'F' then some (c.toNat - 'A'.toNat + 10)
  else none

def hexValue? (a b c d : Char) : Option Nat := do
  let a <- hexDigit? a
  let b <- hexDigit? b
  let c <- hexDigit? c
  let d <- hexDigit? d
  return ((a * 16 + b) * 16 + c) * 16 + d

/-- The unit at the front of a text.  Four bytes are taken for it whatever they are; a text
of less than four bytes is cut short. -/
def unit (cs : List Char) : Except JsonStop (Nat × List Char) :=
  match cs with
  | a :: b :: c :: d :: rest =>
      match hexValue? a b c d with
      | some value => .ok (value, rest)
      | none => .error (JsonFault.invalidEscape.within cs 4)
  | _ =>
      let fault := if Text.byteCount cs < 4 then JsonFault.endOfText else .invalidEscape
      .error (fault.within cs 4)

def isLeading (value : Nat) : Bool :=
  decide (0xd800 ≤ value) && decide (value ≤ 0xdbff)

def isTrailing (value : Nat) : Bool :=
  decide (0xdc00 ≤ value) && decide (value ≤ 0xdfff)

def pair (leading trailing : Nat) : Char :=
  Char.ofNat ((leading - 0xd800) * 0x400 + (trailing - 0xdc00) + 0x10000)

/-- The text after the marks of a second unit escape. -/
def secondEscape : List Char -> Except JsonStop (List Char)
  | [] => .error (JsonFault.endOfText.before [])
  | '\\' :: [] => .error (JsonFault.endOfText.before [])
  | '\\' :: 'u' :: rest => .ok rest
  | '\\' :: rest => .error (JsonFault.unexpectedEndOfEscape.on rest)
  | cs => .error (JsonFault.unexpectedEndOfEscape.on cs)

/-- The character of a unit escape; the text starts behind the `u`. -/
def unitEscape (cs : List Char) : Except JsonStop (Char × List Char) := do
  let (first, rest) <- unit cs
  if isTrailing first then
    .error (JsonFault.loneSurrogate.before rest)
  else if isLeading first then do
    let (second, rest) <- unit (<- secondEscape rest)
    if isTrailing second then .ok (pair first second, rest)
    else .error (JsonFault.loneSurrogate.before rest)
  else
    .ok (Char.ofNat first, rest)

/-!
## Strings
-/

/-- The character that a letter behind a backslash stands for. -/
def short? (c : Char) : Option Char :=
  if c = '"' ∨ c = '\\' ∨ c = '/' then some c
  else if c = 'b' then some '\x08'
  else if c = 'f' then some '\x0c'
  else if c = 'n' then some '\n'
  else if c = 'r' then some '\r'
  else if c = 't' then some '\t'
  else none

def escape : List Char -> Except JsonStop (Char × List Char)
  | [] => .error (JsonFault.endOfText.before [])
  | c :: rest =>
      match short? c with
      | some d => .ok (d, rest)
      | none =>
          if c = 'u' then unitEscape rest
          else .error (JsonFault.invalidEscape.on (c :: rest))

theorem unit_length_lt {cs rest : List Char} {value : Nat}
    (h : unit cs = .ok (value, rest)) : rest.length < cs.length := by
  unfold unit at h
  split at h
  · split at h
    · cases h
      simp only [List.length_cons]
      omega
    · simp at h
  · simp at h

theorem secondEscape_length_lt {cs rest : List Char} (h : secondEscape cs = .ok rest) :
    rest.length < cs.length := by
  unfold secondEscape at h
  split at h
  · simp at h
  · simp at h
  · cases h
    simp only [List.length_cons]
    omega
  · simp at h
  · simp at h

theorem unitEscape_length_lt {cs rest : List Char} {c : Char}
    (h : unitEscape cs = .ok (c, rest)) : rest.length < cs.length := by
  simp only [unitEscape, bind_eq_ok] at h
  obtain ⟨⟨first, afterFirst⟩, hfirst, h⟩ := h
  have h1 := unit_length_lt hfirst
  split at h
  · simp at h
  · split at h
    · simp only [bind_eq_ok] at h
      obtain ⟨afterMarks, hmarks, ⟨second, afterSecond⟩, hsecond, h⟩ := h
      have h2 : afterMarks.length < afterFirst.length := secondEscape_length_lt hmarks
      have h3 := unit_length_lt hsecond
      split at h
      · simp only [Except.ok.injEq, Prod.mk.injEq] at h
        rw [← h.2]
        omega
      · simp at h
    · simp only [Except.ok.injEq, Prod.mk.injEq] at h
      rw [← h.2]
      exact h1

theorem escape_length_lt {cs rest : List Char} {c : Char}
    (h : escape cs = .ok (c, rest)) : rest.length < cs.length := by
  cases cs with
  | nil => simp [escape] at h
  | cons d front =>
      rw [escape] at h
      rw [List.length_cons]
      split at h
      · cases h
        omega
      · split at h
        · have hlt := unitEscape_length_lt h
          omega
        · simp at h

/-- The characters up to the closing quote; the text starts behind the opening one. -/
def characters : List Char -> Except JsonStop (List Char × List Char)
  | [] => .error (JsonFault.endOfText.before [])
  | c :: rest =>
      if c = '"' then .ok ([], rest)
      else if c = '\\' then
        match _hstep : escape rest with
        | .error e => .error e
        | .ok (d, rest) => consItem d (characters rest)
      else if c.toNat < 0x20 then .error (JsonFault.controlCharacter.on (c :: rest))
      else consItem c (characters rest)
termination_by cs => cs.length
decreasing_by
  · have hlt := escape_length_lt _hstep
    simp only [List.length_cons]
    omega
  · simp only [List.length_cons]
    omega

theorem characters_length_lt {cs rest text : List Char}
    (h : characters cs = .ok (text, rest)) : rest.length < cs.length := by
  fun_induction characters cs generalizing text rest with
  | case1 => simp at h
  | case2 front =>
      cases h
      simp only [List.length_cons]
      omega
  | case3 => simp at h
  | case4 front d afterEscape hstep _ ih =>
      obtain ⟨more, hmore, _⟩ := consItem_eq_ok.mp h
      have hlt := escape_length_lt hstep
      have hrest := ih hmore
      simp only [List.length_cons]
      omega
  | case5 => simp at h
  | case6 c front _ _ _ ih =>
      obtain ⟨more, hmore, _⟩ := consItem_eq_ok.mp h
      have hrest := ih hmore
      simp only [List.length_cons]
      omega

def read (cs : List Char) : Except JsonStop (String × List Char) :=
  match characters cs with
  | .error e => .error e
  | .ok (text, rest) => .ok (String.ofList text, rest)

theorem read_length_lt {cs rest : List Char} {text : String}
    (h : read cs = .ok (text, rest)) : rest.length < cs.length := by
  unfold read at h
  split at h
  · simp at h
  · rename_i htext
    have hlt := characters_length_lt htext
    cases h
    exact hlt

end JsonText
end LoopNest
