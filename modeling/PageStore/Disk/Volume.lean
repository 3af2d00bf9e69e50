import PageStore.Disk.File
import PageStore.Error
import PageStore.Text.Utf8

/-!
# PageStore.Disk.Volume

A tree of directories and files. A path is walked from the root part by part, and every part but
the last must be a directory; `.` stays where it is and `..` goes up. A file is opened by its path
and then known by its key, the parts that the walk went down, so two spellings of one path give one
file. A path that ends in a slash names what it names as a directory, as if a `.` followed.

The device under the volume may fail. Which of the coming page transfers fail is part of the
volume's state (`faults`): each transfer takes the next entry, and none fails once the list is used
up. A transfer that fails is taken to change no file; what a device leaves of a page that it did not
write to the end is not described. Asking how long an open file is may fail too (`lengthFails`).

No file grows past `lengthLimit` by a change of its length from outside. A page write is not held to
that limit: one that the file system refuses is among those that fail.
-/

namespace PageStore

inductive Entry where
  | directory
  | file (content : ByteFile)

/-- A plain path: the parts below the root, each after a slash. -/
abbrev FileKey := String

structure Volume where
  entries : Std.TreeMap FileKey Entry
  /-- For each of the coming page transfers, whether it fails. -/
  faults : List Bool := []
  /-- Whether asking for the length of an open file fails. -/
  lengthFails : Bool := false

namespace Volume

def split : List Char → List (List Char)
  | [] => [[]]
  | '/' :: rest => [] :: split rest
  | c :: rest =>
    match split rest with
    | [] => [[c]]
    | part :: parts => (c :: part) :: parts

/-- The parts of a path that have a name. -/
def parts (path : List Char) : List (List Char) := (split path).filter (· ≠ [])

def key (parts : List (List Char)) : FileKey :=
  String.ofList (parts.flatMap fun part => '/' :: part)

/-- An empty directory, with the directories above it. -/
def ofDirectory (path : String) : Volume :=
  let ps := parts path.toList
  { entries := (List.range ps.length).foldl
      (fun entries n => entries.insert (key (ps.take (n + 1))) .directory) ∅ }

/-- What is at a plain path. The root is a directory. -/
def entry? (v : Volume) (parts : List (List Char)) : Option Entry :=
  if parts = [] then some .directory else v.entries[key parts]?

def partLimit : Nat := 255

/-- A place in the tree: its plain path, and what is there. -/
structure Place where
  parts : List (List Char)
  entry : Option Entry

def walk (v : Volume) (done : List (List Char)) : List (List Char) → Except IoFault Place
  | [] => .ok ⟨done, v.entry? done⟩
  | part :: rest =>
    match v.entry? done with
    | none => .error .notFound
    | some (.file _) => .error .notADirectory
    | some .directory =>
      if part = ['.'] then walk v done rest
      else if part = ['.', '.'] then walk v done.dropLast rest
      else if partLimit < (Text.encode part).length then .error .invalidFilename
      else walk v (done ++ [part]) rest

def pathLimit : Nat := 4095

/-- The named parts of a path, if it can be a path at all. -/
def parts? (path : String) : Except IoFault (List (List Char)) :=
  if path.toList.contains '\x00' then .error .invalidInput
  else if pathLimit < (Text.encode path.toList).length then .error .invalidFilename
  else .ok (parts path.toList)

def endsInSlash (path : String) : Bool := path.toList.getLast? = some '/'

def lookup (v : Volume) (path : String) : Except IoFault Place :=
  match parts? path with
  | .error e => .error e
  | .ok ps => v.walk [] (if endsInSlash path then ps ++ [['.']] else ps)

def fileAt (v : Volume) (path : String) : Except IoFault (FileKey × ByteFile) :=
  match v.lookup path with
  | .error e => .error e
  | .ok ⟨_, none⟩ => .error .notFound
  | .ok ⟨_, some .directory⟩ => .error .isADirectory
  | .ok ⟨ps, some (.file f)⟩ => .ok (key ps, f)

/-- Opens a file for reading and writing, making it if it is not there: its key, and the volume
with the file in it. No file is made under a name with a slash behind it, and what is there under
the name is not looked at: only the directory above counts. -/
def openFile (v : Volume) (path : String) : Except IoFault (FileKey × Volume) :=
  match parts? path with
  | .error e => .error e
  | .ok ps =>
    match v.walk [] (if endsInSlash path then ps.dropLast ++ [['.']] else ps) with
    | .error e => .error e
    | .ok ⟨_, some .directory⟩ => .error .isADirectory
    | .ok ⟨ps, some (.file _)⟩ => .ok (key ps, v)
    | .ok ⟨ps, none⟩ =>
      .ok (key ps, { v with entries := v.entries.insert (key ps) (.file .empty) })

/-- Makes an empty directory. Its name may have slashes behind it. -/
def makeDirectory (v : Volume) (path : String) : Except IoFault Volume :=
  match parts? path with
  | .error e => .error e
  | .ok ps =>
    match v.walk [] ps with
    | .error e => .error e
    | .ok ⟨_, some _⟩ => .error .alreadyExists
    | .ok ⟨ps, none⟩ => .ok { v with entries := v.entries.insert (key ps) .directory }

def content (v : Volume) (key : FileKey) : ByteFile :=
  match v.entries[key]? with
  | some (.file f) => f
  | _ => .empty

def setContent (v : Volume) (key : FileKey) (f : ByteFile) : Volume :=
  { v with entries := v.entries.insert key (.file f) }

def writeFile (v : Volume) (path : String) (f : ByteFile) : Except IoFault Volume :=
  match v.openFile path with
  | .error e => .error e
  | .ok (key, v) => .ok (v.setContent key f)

/-- The most bytes that a file may have: `2 ^ 32 - 1` blocks of 4096. -/
def lengthLimit : Nat := 17592186040320

/-- Cuts a file off, or extends it with zeros. -/
def resizeFile (v : Volume) (path : String) (length : Nat) : Except IoFault Volume :=
  match v.fileAt path with
  | .error e => .error e
  | .ok (key, f) =>
    if lengthLimit < length then .error .fileTooLarge
    else .ok (v.setContent key (f.resize length))

/-- The next page transfer: whether it fails, and the volume afterwards. -/
def transfer (v : Volume) : Bool × Volume :=
  match v.faults with
  | [] => (false, v)
  | failed :: rest => (failed, { v with faults := rest })

theorem content_setContent (v : Volume) (a b : FileKey) (f : ByteFile) :
    (v.setContent a f).content b = if b = a then f else v.content b := by
  simp only [content, setContent, Std.TreeMap.getElem?_insert]
  by_cases h : b = a
  · simp [h]
  · have h' : a ≠ b := fun e => h e.symm
    simp [h, h']

@[simp] theorem content_transfer (v : Volume) (key : FileKey) :
    v.transfer.2.content key = v.content key := by
  unfold transfer
  split <;> rfl

end Volume
end PageStore
