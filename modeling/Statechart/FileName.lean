/-
# File names

The parts of a file's name, from the outermost folder to the file. Empty parts and single dots carry
nothing and are left out.

* `FileName.ofText`, `FileName.text`;
* `FileName.suffix`: the ending that tells the format;
* `FileName.resolved`: the name as seen from a folder, without steps back.
-/
import Statechart.Text.Search

namespace Statechart

/-- The name of a file or a folder. -/
structure FileName where
  /-- Whether it is given from the root. -/
  isAbsolute : Bool
  parts : List String
deriving DecidableEq, Repr, Inhabited

namespace FileName

/-- The name a text stands for. -/
def ofText (s : String) : FileName :=
  ⟨s.toList.head? = some '/', (splitAt '/' s).filter fun part => part ≠ "" ∧ part ≠ "."⟩

/-- The text of a name; a name without parts is the folder one is in. -/
def text (f : FileName) : String :=
  if f.isAbsolute then "/" ++ "/".intercalate f.parts
  else if f.parts.isEmpty then "." else "/".intercalate f.parts

/-- The last part. -/
def name (f : FileName) : String := f.parts.getLast?.getD ""

/-- The ending of the last part, from its last dot on; a dot that begins or ends the part makes
none. -/
def suffix (f : FileName) : String :=
  let reversed := f.name.toList.reverse
  let ending := reversed.takeWhile (· ≠ '.')
  if ending.isEmpty ∨ reversed.length ≤ ending.length + 1 then "" else String.ofList ('.' :: ending.reverse)

/-- A name as seen from a folder. -/
def below (f folder : FileName) : FileName :=
  if f.isAbsolute then f else ⟨folder.isAbsolute, folder.parts ++ f.parts⟩

/-- A name without steps back, each of which takes away the part before it. -/
def withoutSteps (f : FileName) : FileName :=
  { f with parts := (f.parts.foldl (fun done part => if part = ".." then done.drop 1 else part :: done) []).reverse }

/-- A name as seen from a folder, without steps back. -/
def resolved (f folder : FileName) : FileName := (f.below folder).withoutSteps

/-- A name given from the root is the same from everywhere. -/
theorem below_of_absolute {f : FileName} (h : f.isAbsolute = true) (folder : FileName) :
    f.below folder = f := by
  simp [below, h]

end FileName

end Statechart
