import LoopNest.Json.Number
import LoopNest.Json.Text

/-!
# Reading JSON

Values are read from left to right.  Lists and objects may be nested up to a fixed depth;
the reader of a depth is made from the reader of the depth below it.
-/

namespace LoopNest

/-- A reader that consumes something whenever it succeeds. -/
structure JsonReader where
  read : List Char -> Except JsonStop (JsonValue × List Char)
  shrinks : forall cs v rest, read cs = .ok (v, rest) -> rest.length < cs.length

namespace JsonReader

/-!
## Blanks and words
-/

def isBlank (c : Char) : Bool :=
  c == ' ' || c == '\n' || c == '\t' || c == '\r'

def skip (cs : List Char) : List Char :=
  cs.dropWhile isBlank

theorem skip_length_le (cs : List Char) : (skip cs).length ≤ cs.length :=
  (List.dropWhile_sublist isBlank).length_le

/-- The rest of a word of which the first letter has been read. -/
def readWord : (letters : List Char) -> List Char -> Except JsonStop (List Char)
  | [], cs => .ok cs
  | _ :: _, [] => .error (JsonFault.endOfValue.before [])
  | d :: letters, c :: cs =>
      if c = d then readWord letters cs else .error (JsonFault.expectedWord.on (c :: cs))

theorem readWord_length_le {letters cs rest : List Char}
    (h : readWord letters cs = .ok rest) : rest.length ≤ cs.length := by
  induction letters generalizing cs with
  | nil =>
      cases h
      exact Nat.le_refl _
  | cons d letters ih =>
      cases cs with
      | nil => simp [readWord] at h
      | cons c cs =>
          rw [readWord] at h
          split at h
          · have hle := ih h
            rw [List.length_cons]
            omega
          · simp at h

/-!
## Scalars
-/

def readNumber (negative : Bool) (cs : List Char) :
    Except JsonStop (JsonValue × List Char) := do
  let (numeral, rest) <- Numeral.readUnsigned negative cs
  match numeral.value? with
  | some value => return (value, rest)
  | none => .error ⟨.numberOutOfRange, Text.byteCount rest + numeral.unread⟩

def readScalar (cs : List Char) : Except JsonStop (JsonValue × List Char) :=
  match cs with
  | [] => .error (JsonFault.endOfValue.before [])
  | c :: rest =>
      if c = 'n' then do
        let rest <- readWord ['u', 'l', 'l'] rest
        return (.null, rest)
      else if c = 't' then do
        let rest <- readWord ['r', 'u', 'e'] rest
        return (.bool true, rest)
      else if c = 'f' then do
        let rest <- readWord ['a', 'l', 's', 'e'] rest
        return (.bool false, rest)
      else if c = '-' then readNumber true rest
      else if c.isDigit then readNumber false (c :: rest)
      else if c = '"' then do
        let (text, rest) <- JsonText.read rest
        return (.text text, rest)
      else .error (JsonFault.expectedValue.on cs)

theorem readNumber_length_lt {negative : Bool} {cs rest : List Char} {v : JsonValue}
    (h : readNumber negative cs = .ok (v, rest)) : rest.length < cs.length := by
  simp only [readNumber, bind_eq_ok] at h
  obtain ⟨⟨n, afterNumeral⟩, hnumeral, h⟩ := h
  have h1 := Numeral.readUnsigned_length_lt hnumeral
  simp only at h
  split at h
  · cases h
    exact h1
  · simp at h

theorem readScalar_length_lt {cs rest : List Char} {v : JsonValue}
    (h : readScalar cs = .ok (v, rest)) : rest.length < cs.length := by
  unfold readScalar at h
  split at h
  · simp at h
  · rename_i c front
    rw [List.length_cons]
    repeat' split at h
    · simp only [bind_eq_ok] at h
      obtain ⟨afterWord, hword, h⟩ := h
      have hle := readWord_length_le hword
      cases h
      omega
    · simp only [bind_eq_ok] at h
      obtain ⟨afterWord, hword, h⟩ := h
      have hle := readWord_length_le hword
      cases h
      omega
    · simp only [bind_eq_ok] at h
      obtain ⟨afterWord, hword, h⟩ := h
      have hle := readWord_length_le hword
      cases h
      omega
    · have hlt := readNumber_length_lt h
      omega
    · exact readNumber_length_lt h
    · simp only [bind_eq_ok] at h
      obtain ⟨⟨text, afterText⟩, htext, h⟩ := h
      have hlt := JsonText.read_length_lt htext
      cases h
      simp only at hlt ⊢
      omega
    · simp at h

/-!
## Lists and objects
-/

def items (r : JsonReader) (cs : List Char) :
    Except JsonStop (List JsonValue × List Char) :=
  match _hskip : skip cs with
  | [] => .error (JsonFault.endOfList.before [])
  | c :: front =>
      if c = ']' then .ok ([], front)
      else if c = ',' then
        match skip front with
        | [] => .error (JsonFault.endOfValue.before [])
        | ']' :: rest => .error (JsonFault.trailingComma.on (']' :: rest))
        | _ =>
            match _hstep : r.read front with
            | .error e => .error e
            | .ok (v, rest) => consItem v (items r rest)
      else .error (JsonFault.expectedListSeparator.on (c :: front))
termination_by cs.length
decreasing_by
  have hle := skip_length_le cs
  rw [_hskip, List.length_cons] at hle
  have hlt := r.shrinks _ _ _ _hstep
  omega

def list (r : JsonReader) (cs : List Char) : Except JsonStop (List JsonValue × List Char) :=
  match skip cs with
  | [] => .error (JsonFault.endOfList.before [])
  | ']' :: rest => .ok ([], rest)
  | _ =>
      match r.read cs with
      | .error e => .error e
      | .ok (v, rest) => consItem v (items r rest)

def member (r : JsonReader) (cs : List Char) :
    Except JsonStop ((String × JsonValue) × List Char) := do
  let (name, rest) <- JsonText.read cs
  match skip rest with
  | [] => .error (JsonFault.endOfObject.before [])
  | ':' :: rest => do
      let (value, rest) <- r.read rest
      return ((name, value), rest)
  | other => .error (JsonFault.expectedColon.on other)

theorem member_length_lt {r : JsonReader} {cs rest : List Char} {m : String × JsonValue}
    (h : member r cs = .ok (m, rest)) : rest.length < cs.length := by
  simp only [member, bind_eq_ok] at h
  obtain ⟨⟨name, afterName⟩, hname, h⟩ := h
  have h1 := JsonText.read_length_lt hname
  have h2 := skip_length_le afterName
  simp only at h
  split at h
  · simp at h
  · rename_i hskip
    rw [hskip, List.length_cons] at h2
    simp only [bind_eq_ok] at h
    obtain ⟨⟨value, afterValue⟩, hvalue, h⟩ := h
    have h3 := r.shrinks _ _ _ hvalue
    cases h
    simp only at h3 ⊢
    omega
  · simp at h

def members (r : JsonReader) (cs : List Char) :
    Except JsonStop (List (String × JsonValue) × List Char) :=
  match _hskip : skip cs with
  | [] => .error (JsonFault.endOfObject.before [])
  | c :: front =>
      if c = '}' then .ok ([], front)
      else if c = ',' then
        match _hname : skip front with
        | [] => .error (JsonFault.endOfValue.before [])
        | '}' :: rest => .error (JsonFault.trailingComma.on ('}' :: rest))
        | '"' :: name =>
            match _hstep : member r name with
            | .error e => .error e
            | .ok (m, rest) => consItem m (members r rest)
        | other => .error (JsonFault.expectedName.on other)
      else .error (JsonFault.expectedObjectSeparator.on (c :: front))
termination_by cs.length
decreasing_by
  have hle := skip_length_le cs
  rw [_hskip, List.length_cons] at hle
  have hle' := skip_length_le front
  rw [_hname, List.length_cons] at hle'
  have hlt := member_length_lt _hstep
  omega

def object (r : JsonReader) (cs : List Char) :
    Except JsonStop (List (String × JsonValue) × List Char) :=
  match skip cs with
  | [] => .error (JsonFault.endOfObject.before [])
  | '}' :: rest => .ok ([], rest)
  | '"' :: name =>
      match member r name with
      | .error e => .error e
      | .ok (m, rest) => consItem m (members r rest)
  | other => .error (JsonFault.expectedName.on other)

theorem items_length_le {r : JsonReader} {cs rest : List Char} {vs : List JsonValue}
    (h : items r cs = .ok (vs, rest)) : rest.length ≤ cs.length := by
  fun_induction items r cs generalizing vs rest with
  | case1 => simp at h
  | case2 cs front hskip =>
      have hle := skip_length_le cs
      rw [hskip, List.length_cons] at hle
      cases h
      omega
  | case3 => simp at h
  | case4 => simp at h
  | case5 => simp at h
  | case6 cs front v afterFirst hfirst _ _ hskip _ ih =>
      have hle := skip_length_le cs
      rw [hskip, List.length_cons] at hle
      have hlt := r.shrinks _ _ _ hfirst
      obtain ⟨more, hmore, _⟩ := consItem_eq_ok.mp h
      have hrest := ih hmore
      omega
  | case7 => simp at h

theorem list_length_le {r : JsonReader} {cs rest : List Char} {vs : List JsonValue}
    (h : list r cs = .ok (vs, rest)) : rest.length ≤ cs.length := by
  have hle := skip_length_le cs
  unfold list at h
  split at h
  · simp at h
  · rename_i hskip
    rw [hskip, List.length_cons] at hle
    cases h
    omega
  · split at h
    · simp at h
    · rename_i hfirst
      have hlt := r.shrinks _ _ _ hfirst
      obtain ⟨more, hmore, _⟩ := consItem_eq_ok.mp h
      have hrest := items_length_le hmore
      omega

theorem members_length_le {r : JsonReader} {cs rest : List Char}
    {ms : List (String × JsonValue)} (h : members r cs = .ok (ms, rest)) :
    rest.length ≤ cs.length := by
  fun_induction members r cs generalizing ms rest with
  | case1 => simp at h
  | case2 cs front hskip =>
      have hle := skip_length_le cs
      rw [hskip, List.length_cons] at hle
      cases h
      omega
  | case3 => simp at h
  | case4 => simp at h
  | case5 => simp at h
  | case6 cs front name hname m afterFirst hfirst hskip _ ih =>
      have hle := skip_length_le cs
      rw [hskip, List.length_cons] at hle
      have hle' := skip_length_le front
      rw [hname, List.length_cons] at hle'
      have hlt := member_length_lt hfirst
      obtain ⟨more, hmore, _⟩ := consItem_eq_ok.mp h
      have hrest := ih hmore
      omega
  | case7 => simp at h
  | case8 => simp at h

theorem object_length_le {r : JsonReader} {cs rest : List Char}
    {ms : List (String × JsonValue)} (h : object r cs = .ok (ms, rest)) :
    rest.length ≤ cs.length := by
  have hle := skip_length_le cs
  unfold object at h
  split at h
  · simp at h
  · rename_i hskip
    rw [hskip, List.length_cons] at hle
    cases h
    omega
  · rename_i hskip
    rw [hskip, List.length_cons] at hle
    split at h
    · simp at h
    · rename_i hfirst
      have hlt := member_length_lt hfirst
      obtain ⟨more, hmore, _⟩ := consItem_eq_ok.mp h
      have hrest := members_length_le hmore
      omega
  · simp at h

/-!
## Nesting
-/

/-- The value at the front of a text, where `inner` reads the values inside lists and
objects. -/
def readWith (inner : JsonReader) (cs : List Char) :
    Except JsonStop (JsonValue × List Char) :=
  match skip cs with
  | '[' :: rest => do
      let (items, rest) <- list inner rest
      return (.list items, rest)
  | '{' :: rest => do
      let (members, rest) <- object inner rest
      return (.ofMembers members, rest)
  | front => readScalar front

/-- The value at the front of a text, where lists and objects are refused. -/
def readFlat (cs : List Char) : Except JsonStop (JsonValue × List Char) :=
  match skip cs with
  | '[' :: rest => .error (JsonFault.tooDeep.on ('[' :: rest))
  | '{' :: rest => .error (JsonFault.tooDeep.on ('{' :: rest))
  | front => readScalar front

theorem readWith_length_lt {inner : JsonReader} {cs rest : List Char} {v : JsonValue}
    (h : readWith inner cs = .ok (v, rest)) : rest.length < cs.length := by
  have hle := skip_length_le cs
  unfold readWith at h
  split at h
  · rename_i front hskip
    rw [hskip, List.length_cons] at hle
    simp only [bind_eq_ok] at h
    obtain ⟨⟨items, afterItems⟩, hitems, h⟩ := h
    have hlist := list_length_le hitems
    cases h
    simp only
    omega
  · rename_i front hskip
    rw [hskip, List.length_cons] at hle
    simp only [bind_eq_ok] at h
    obtain ⟨⟨members, afterMembers⟩, hmembers, h⟩ := h
    have hobject := object_length_le hmembers
    cases h
    simp only
    omega
  · have hlt := readScalar_length_lt h
    omega

theorem readFlat_length_lt {cs rest : List Char} {v : JsonValue}
    (h : readFlat cs = .ok (v, rest)) : rest.length < cs.length := by
  have hle := skip_length_le cs
  unfold readFlat at h
  split at h
  · simp at h
  · simp at h
  · have hlt := readScalar_length_lt h
    omega

/-- The reader of values with at most `depth` lists and objects around a scalar. -/
def nested : (depth : Nat) -> JsonReader
  | 0 => ⟨readFlat, fun _ _ _ => readFlat_length_lt⟩
  | depth + 1 => ⟨readWith (nested depth), fun _ _ _ => readWith_length_lt⟩

/-- The greatest number of lists and objects around a scalar. -/
def greatestDepth : Nat := 127

end JsonReader

def JsonReader.readAll (cs : List Char) : Except JsonStop JsonValue := do
  let (value, rest) <- (nested greatestDepth).read cs
  match skip rest with
  | [] => .ok value
  | other => .error (JsonFault.trailingCharacters.on other)

def JsonValue.read (text : String) : Except JsonError JsonValue :=
  (JsonReader.readAll text.toList).mapError fun stop => stop.inText text.toList

end LoopNest
