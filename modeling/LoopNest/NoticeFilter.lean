import LoopNest.Notice
import LoopNest.Pattern
import LoopNest.Text.Basic
import LoopNest.Text.Classes

/-!
# Notice filters

A reader says in a few words which notices are wanted.  Each word is a directive: a level
for all targets, a target with a level, or a target alone.  A target stands for every target
that starts with it, and the longest one that fits decides.  Behind a slash stands a pattern
that the text of a notice must contain.  Words and patterns that make no sense are complained
about and ignored.
-/

namespace LoopNest

/-- A bound for the notices of the targets that start with the given one. -/
structure Directive where
  target : Option String
  bound : Option Level
  deriving DecidableEq, Repr

namespace Directive

def fits (d : Directive) (target : String) : Bool :=
  match d.target with
  | none => true
  | some start => target.startsWith start

/-- How much of a target the directive names. -/
def weight (d : Directive) : Nat :=
  (d.target.getD "").utf8ByteSize

end Directive

/-- Which notices are wanted, and what was wrong with the words that said so. -/
structure NoticeFilter where
  directives : List Directive
  pattern : Option Pattern
  complaints : List String

namespace NoticeFilter

/-!
## Reading
-/

/-- Errors only. -/
def standard : NoticeFilter :=
  ⟨[⟨none, some .error⟩], none, []⟩

def trim (text : String) : String :=
  String.ofList ((text.toList.dropWhile Text.isBlank).reverse.dropWhile Text.isBlank).reverse

def complaint (words : String) : String :=
  "warning: invalid logging spec '" ++ words ++ "', ignoring it"

/-- The directive in a word, or a complaint.  A word that is no level is a target, and a
target without a level is wanted as a whole. -/
def readDirective (word : String) : Except String Directive :=
  match word.splitOn "=" with
  | [alone] =>
      match Level.boundOfWord? alone with
      | some bound => .ok ⟨none, bound⟩
      | none => .ok ⟨some alone, some .trace⟩
  | [target, level] =>
      let level := trim level
      if level = "" then .ok ⟨some target, some .trace⟩
      else
        match Level.boundOfWord? level with
        | some bound => .ok ⟨some target, bound⟩
        | none => .error (complaint level)
  | _ => .error (complaint word)

/-- Puts a directive in the place of the one for the same target, or at the end. -/
def putDirective (d : Directive) : List Directive -> List Directive
  | [] => [d]
  | e :: more => if e.target = d.target then d :: more else e :: putDirective d more

def addWord (f : NoticeFilter) (word : String) : NoticeFilter :=
  let word := trim word
  if word = "" then f
  else
    match readDirective word with
    | .ok d => { f with directives := putDirective d f.directives }
    | .error text => { f with complaints := f.complaints ++ [text] }

def ofWords (words : String) : NoticeFilter :=
  let f := (words.splitOn ",").foldl addWord ⟨[], none, []⟩
  if f.directives = [] then { f with directives := standard.directives } else f

def patternComplaint (pattern : String) (refusal : Pattern.Refusal) : String :=
  "warning: invalid regex filter - " ++ refusal.message pattern ++ ", ignoring it"

def addPattern (f : NoticeFilter) (pattern : String) : NoticeFilter :=
  match Pattern.ofText pattern with
  | .ok p => { f with pattern := some p }
  | .error refusal =>
      { f with complaints := f.complaints ++ [patternComplaint pattern refusal] }

def ofText (text : String) : NoticeFilter :=
  match text.splitOn "/" with
  | [words] => ofWords words
  | [words, pattern] => (ofWords words).addPattern pattern
  | _ =>
      { standard with
        complaints :=
          ["warning: invalid logging spec '" ++ text ++ "' (too many '/'s), ignoring it"] }

/-!
## Filtering
-/

/-- Of two directives the one that names more of a target; of equals the later one. -/
def prefer (best : Option Directive) (d : Directive) : Option Directive :=
  match best with
  | none => some d
  | some e => if e.weight ≤ d.weight then some d else some e

def bound (f : NoticeFilter) (target : String) : Option Level :=
  match (f.directives.filter fun d => d.fits target).foldl prefer none with
  | none => none
  | some d => d.bound

def wants (f : NoticeFilter) (notice : Notice) : Bool :=
  notice.isWithin (f.bound notice.target)
    && f.pattern.all fun pattern => pattern.occursIn notice.text

def entries (f : NoticeFilter) (notices : List Notice) : String :=
  String.join ((notices.filter f.wants).map Notice.entry)

/-- What a reader sees of the notices: first the complaints, then the entries. -/
def log (f : NoticeFilter) (notices : List Notice) : String :=
  Text.ofLines f.complaints ++ f.entries notices

end NoticeFilter
end LoopNest
