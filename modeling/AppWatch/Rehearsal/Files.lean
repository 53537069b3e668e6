/-
# A scripted file tree

The files that a rehearsal finds, as texts by path below the working directory.  The directories
are those that the files stand in.  A path goes down through directories; an empty part and a
single dot stay where they are, two dots go up.

Nothing is known of what stands beside the working directory or above it, except that the
directories that lead to it are there, and the empty device.
-/
import AppWatch.Config.Load

namespace AppWatch

/-- Files by their paths below the working directory. -/
structure FileTree where
  files : SortedMap String String := .empty

/-- A place that a path leads to. -/
inductive Place where
  /-- A place in the working directory, by the parts that lead down to it, innermost first. -/
  | inside (down : List String)
  /-- A directory that leads to the working directory. -/
  | above
deriving DecidableEq, Repr

namespace FileTree

/-- The parts of a path. -/
def parts (path : String) : List String := (Text.segments '/' path.toList).map String.ofList

/-- The path made of parts that lead down from the working directory, innermost first. -/
def pathOf (down : List String) : String := String.intercalate "/" down.reverse

/-- Whether a part of a path stays where it is. -/
def stays (part : String) : Bool := part = "" || part = "."

/-- The tree of files that are given by their paths. -/
def ofFiles (files : SortedMap String String) : FileTree :=
  ⟨.ofList (files.entries.map fun (path, text) =>
    (pathOf ((parts path).filter (!stays ·)).reverse, text))⟩

/-- Whether the parts lead to a directory. -/
def isDirectory (t : FileTree) (down : List String) : Bool :=
  down.isEmpty || t.files.keys.any (·.startsWith (pathOf down ++ "/"))

/-- Where the next part of a path leads from a place. -/
def next? (t : FileTree) (part : String) : Place → Option Place
  | .above => if stays part || part = ".." then some .above else none
  | .inside down =>
    if !t.isDirectory down then none
    else if stays part then some (.inside down)
    else if part = ".." then some (if down.isEmpty then .above else .inside (down.drop 1))
    else some (.inside (part :: down))

/-- What stands at a place. -/
def stateAt (t : FileTree) : Place → FileState
  | .above => .unreadable
  | .inside down =>
    match t.files.get? (pathOf down) with
    | some text => .holds text
    | none => if t.isDirectory down then .unreadable else .absent

/-- What stands at a path. -/
def state (t : FileTree) (path : String) : FileState :=
  if path = "" then .absent
  else if path = "/dev/null" then .holds ""
  else
    let start : Place := if path.startsWith "/" then .above else .inside []
    match (parts path).foldlM (fun place part => t.next? part place) start with
    | none => .absent
    | some place => t.stateAt place

end FileTree

end AppWatch
