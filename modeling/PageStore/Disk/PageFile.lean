import PageStore.Disk.Volume

/-!
# PageStore.Disk.PageFile

A file that is read and written by whole pages. Page `n` starts at byte `n * pageSize`; the file's
length alone says how many pages there are. A read of a page that starts at or past the end fails,
and only transfers that succeed are counted, in 32 bits each way. One that the device fails leaves
the file as it was: this is what the volume takes a failure to be, and a page that the device leaves
half written is not described.
-/

namespace PageStore

/-- An open page file: which file it is, its path as given, and its transfers so far. -/
structure PageFile where
  key : FileKey
  path : String
  reads : Nat := 0
  writes : Nat := 0
  deriving DecidableEq

namespace PageFile

def counted (n : Nat) : Nat := (n + 1) % 4294967296

def pageCount (f : PageFile) (v : Volume) : Nat := (v.content f.key).pageCount

def read (f : PageFile) (v : Volume) (n : Nat) : Volume × PageFile × Except IoFault Image :=
  match (v.content f.key).read? n with
  | none => (v, f, .error (.pastEnd n f.path))
  | some im =>
    match v.transfer with
    | (true, v) => (v, f, .error .device)
    | (false, v) => (v, { f with reads := counted f.reads }, .ok im)

/-- Writes page `n`, extending the file if the page is new. -/
def write (f : PageFile) (v : Volume) (n : Nat) (im : Image) :
    Volume × PageFile × Except IoFault Unit :=
  match v.transfer with
  | (true, v) => (v, f, .error .device)
  | (false, v) =>
    (v.setContent f.key ((v.content f.key).write n im), { f with writes := counted f.writes }, .ok ())

/-- Opens the page file at a path, making it if it is not there. -/
def openAt (v : Volume) (path : String) : Except IoFault (PageFile × Volume) :=
  match v.openFile path with
  | .error e => .error e
  | .ok (key, v) => .ok ({ key, path }, v)

theorem content_read (f : PageFile) (v : Volume) (n : Nat) (key : FileKey) :
    (f.read v n).1.content key = v.content key := by
  unfold read
  split
  · rfl
  · have := v.content_transfer key
    split <;> simp_all

/-- A write that succeeds replaces the page in its own file and nothing else; one that fails
changes no file. -/
theorem content_write (f : PageFile) (v : Volume) (n : Nat) (im : Image) (key : FileKey) :
    (f.write v n im).1.content key =
      if key = f.key ∧ (f.write v n im).2.2.isOk then (v.content key).write n im
      else v.content key := by
  have ht := v.content_transfer
  unfold write
  split
  · rename_i w e
    rw [e] at ht
    simp [Except.isOk, Except.toBool, ht]
  · rename_i w e
    rw [e] at ht
    simp only [Volume.content_setContent, ht]
    by_cases h : key = f.key <;> simp [h, Except.isOk, Except.toBool]

end PageFile
end PageStore
