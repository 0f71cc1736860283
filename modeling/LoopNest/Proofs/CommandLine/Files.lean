import LoopNest.CommandLine.Files
import LoopNest.Text.Basic

/-!
# Writing and reading files

A text that has been written without a fault is kept by the file that its path leads to, and the
path still leads there: a file blocks no way that went through directories before.  A device keeps
nothing, so that the files stay as they are.  Nothing changes at other places, fault or not.
-/

namespace LoopNest
namespace CommandLine

theorem fromUTF8?_toUTF8 (text : String) : String.fromUTF8? text.toUTF8 = some text := by
  have h : text.toUTF8.IsValidUTF8 := text.isValidUTF8
  rw [String.fromUTF8?, dif_pos h]
  rfl

namespace Files

variable {files written : Files} {place other reached : FilePlace} {path name text : String}
  {entry : Entry} {access : Access} {way : FilePlace × Option String}

/-!
## What a write does
-/

@[simp] theorem at?_put_self (files : Files) (place : FilePlace) (entry : Entry) :
    (files.put place entry).at? place = some entry :=
  if_pos rfl

theorem at?_put_of_ne (h : other ≠ place) : (files.put place entry).at? other = files.at? other :=
  if_neg h

/-- What becomes of a text that is written without a fault. -/
inductive Takes (files : Files) (text : String) (place : FilePlace) : Files -> Prop where
  | created : files.at? place = none -> files.making place = none ->
      Takes files text place (files.put place (.file text.toUTF8))
  | overwritten {bytes : ByteArray} {access : Access} :
      files.at? place = some (.file bytes access) -> access.writing = none ->
      Takes files text place (files.put place (.file text.toUTF8 access))
  | passed {d : Device} {stream : Option Stream} :
      files.at? place = some (.device d) -> d.writing = .ok stream ->
      Takes files text place files

theorem store_ok {bytes : ByteArray} (h : files.store place bytes access = (none, written)) :
    written = files.put place (.file bytes access) := by
  rw [store] at h
  split at h
  · cases h
    rfl
  · cases h

theorem takes_of_writeAt (h : files.writeAt place text = (none, written)) :
    files.Takes text place written := by
  rw [writeAt] at h
  cases hat : files.at? place with
  | none =>
      rw [hat] at h
      cases hmaking : files.making place with
      | some fault =>
          simp only [hmaking] at h
          cases h
      | none =>
          simp only [hmaking] at h
          rw [store_ok h]
          exact Takes.created hat hmaking
  | some entry =>
      rw [hat] at h
      cases entry with
      | directory access => cases h
      | file bytes access =>
          cases hwriting : access.writing with
          | some fault =>
              simp only [hwriting] at h
              cases h
          | none =>
              simp only [hwriting] at h
              rw [store_ok h]
              exact Takes.overwritten hat hwriting
      | device d =>
          cases hwriting : d.writing with
          | error fault =>
              simp only [hwriting] at h
              cases h
          | ok stream =>
              simp only [hwriting] at h
              cases h
              exact Takes.passed hat hwriting

theorem takes_of_write (h : files.write path text = (none, written)) :
    exists place, files.target? path = .ok place ∧ files.Takes text place written := by
  rw [write] at h
  split at h
  · cases h
  · rename_i place htarget
    exact ⟨place, htarget, takes_of_writeAt h⟩

/-!
## What stays as it is
-/

/-- Whether a place can be passed does not depend on one that was no directory. -/
theorem pass_put (hplace : forall access, files.at? place ≠ some (.directory access))
    (h : files.pass other = .ok ()) : (files.put place entry).pass other = .ok () := by
  have hne : other ≠ place := by
    rintro rfl
    rw [pass] at h
    split at h
    · cases h
    · rename_i access hat
      exact hplace access hat
    · cases h
  rw [pass] at h ⊢
  rw [at?_put_of_ne hne]
  exact h

theorem enter_put (hplace : forall access, files.at? place ≠ some (.directory access))
    (h : files.enter other name = .ok reached) :
    (files.put place entry).enter other name = .ok reached := by
  rcases bind_eq_ok.mp h with ⟨_, hpass, hnext⟩
  exact bind_eq_ok.mpr ⟨(), pass_put hplace hpass, hnext⟩

theorem foldlM_put (hplace : forall access, files.at? place ≠ some (.directory access))
    {names : List String} (h : names.foldlM files.enter other = .ok reached) :
    names.foldlM (files.put place entry).enter other = .ok reached := by
  induction names generalizing other with
  | nil => exact h
  | cons name names ih =>
      rw [List.foldlM_cons, bind_eq_ok] at h ⊢
      rcases h with ⟨next, hnext, h⟩
      exact ⟨next, enter_put hplace hnext, ih h⟩

theorem walk_put (hplace : forall access, files.at? place ≠ some (.directory access))
    (h : files.walk path = .ok way) : (files.put place entry).walk path = .ok way := by
  unfold walk at h ⊢
  split at h
  · cases h
  · rename_i hempty
    rw [if_neg hempty]
    split at h
    · cases h
    · rename_i hlong
      rw [if_neg hlong]
      rcases bind_eq_ok.mp h with ⟨reached, hreached, h⟩
      refine bind_eq_ok.mpr ⟨reached, foldlM_put hplace hreached, ?_⟩
      cases hlast : (Path.names path).getLast? with
      | none =>
          rw [hlast] at h
          exact h
      | some name =>
          rw [hlast] at h
          rcases bind_eq_ok.mp h with ⟨_, hpass, hway⟩
          exact bind_eq_ok.mpr ⟨(), pass_put hplace hpass, hway⟩

theorem locate_put (hplace : forall access, files.at? place ≠ some (.directory access))
    (h : files.locate path = .ok reached) : (files.put place entry).locate path = .ok reached := by
  rcases bind_eq_ok.mp h with ⟨way, hway, h⟩
  exact bind_eq_ok.mpr ⟨way, walk_put hplace hway, h⟩

/-!
## Where a path leads
-/

theorem locate_of_target (h : files.target? path = .ok place) :
    files.locate path = .ok place ∧ Path.namesDirectory path = false := by
  rcases bind_eq_ok.mp h with ⟨⟨around, name?⟩, hwalk, h⟩
  cases name? with
  | none => cases h
  | some name =>
      simp only at h
      split at h
      · cases h
      · rename_i hplain
        simp only [not_or, Bool.not_eq_true] at hplain
        exact ⟨bind_eq_ok.mpr ⟨(around, some name), hwalk, h⟩, hplain.2.2⟩

theorem find_of_locate (h : files.locate path = .ok place)
    (hplain : Path.namesDirectory path = false) (hat : files.at? place = some entry) :
    files.find path = .ok entry := by
  refine bind_eq_ok.mpr ⟨place, h, ?_⟩
  simp only [hat, hplain]
  rfl

/-- A path leads to a file that holds a text and nothing else. -/
def Keeps (files : Files) (path text : String) : Prop :=
  exists access, files.find path = .ok (.file text.toUTF8 access)

/-- What is read from a file that keeps a text is the text, unless the file may not be read. -/
theorem Keeps.read (h : files.Keeps path text) :
    files.read path = .ok text ∨ exists fault, files.read path = .error fault := by
  rcases h with ⟨access, hfind⟩
  have hread : files.read path = Entry.text (.file text.toUTF8 access) := by
    rw [Files.read, hfind]
    rfl
  rw [hread, Entry.text]
  cases access.reading with
  | some fault => exact Or.inr ⟨fault, rfl⟩
  | none =>
      left
      rw [Entry.textOf, fromUTF8?_toUTF8]

theorem keeps_put (hplace : forall access, files.at? place ≠ some (.directory access))
    (h : files.target? path = .ok place) :
    (files.put place (.file text.toUTF8 access)).Keeps path text := by
  rcases locate_of_target h with ⟨hlocate, hplain⟩
  exact ⟨access, find_of_locate (locate_put hplace hlocate) hplain (at?_put_self _ _ _)⟩

/-- What has been written is kept, unless the path leads to a device. -/
theorem keeps_of_write (h : files.write path text = (none, written))
    (hfile : forall d, files.find path ≠ .ok (.device d)) : written.Keeps path text := by
  rcases takes_of_write h with ⟨place, htarget, htakes⟩
  cases htakes with
  | created hat _ =>
      apply keeps_put _ htarget
      intro access hdirectory
      cases hat.symm.trans hdirectory
  | overwritten hat _ =>
      apply keeps_put _ htarget
      intro access hdirectory
      cases hat.symm.trans hdirectory
  | passed hat _ =>
      rcases locate_of_target htarget with ⟨hlocate, hplain⟩
      exact absurd (find_of_locate hlocate hplain hat) (hfile _)

/-- A device keeps nothing of what it takes. -/
theorem eq_of_write_device {d : Device} (h : files.write path text = (none, written))
    (hdevice : files.find path = .ok (.device d)) :
    written = files ∧ exists stream, d.writing = .ok stream := by
  rcases takes_of_write h with ⟨place, htarget, htakes⟩
  rcases locate_of_target htarget with ⟨hlocate, hplain⟩
  have hat : files.at? place = some (.device d) := by
    rcases bind_eq_ok.mp hdevice with ⟨reached, hreached, hentry⟩
    cases hlocate.symm.trans hreached
    simp only [hplain] at hentry
    split at hentry
    · cases hentry
    · rename_i hat
      cases hentry
      exact hat
  cases htakes with
  | created hnone _ => cases hnone.symm.trans hat
  | overwritten hother _ => cases hother.symm.trans hat
  | passed hother hwriting =>
      cases hother.symm.trans hat
      exact ⟨rfl, _, hwriting⟩

end Files
end CommandLine
end LoopNest
