import PageStore.Session
import PageStore.Tuple.Builder

/-!
# PageStore.Demo

A demonstration: a table in a directory, five rows put in and committed, one of them deleted by a
transaction that then aborts, and a scan which shows all five. What is said on the way is the
demonstration's transcript.
-/

namespace PageStore.Demo

/-- The session that is shown, and what has been said so far. -/
structure Stage where
  session : Session
  lines : List String := []

/-- A part of the demonstration; it ends with the first failure. -/
abbrev Act := ExceptT Error (StateM Stage)

def say (line : String) : Act Unit := modify fun s => { s with lines := s.lines ++ [line] }

/-- Does something to the store that waits for nothing. -/
def act (f : Store → Store.Result α) : Act α := do
  let s ← get
  let (session, r) := s.session.update f
  set { s with session }
  liftExcept r
where
  liftExcept : Except Error α → Act α
    | .ok a => pure a
    | .error e => throw e

/-- Makes a call. Nobody else holds a lock, so it never waits. -/
def call (t : TxnId) (c : Call) : Act Answer := do
  let s ← get
  let (session, answer) := s.session.perform t c
  set { s with session }
  return answer.getD (c.fail (.aborted t))

def schema : Schema :=
  ⟨[{ name := "id", type := .integer }, { name := "name", type := .char 24 },
    { name := "score", type := .double, nullable := true }]⟩

def players : List String := ["ada", "grace", "edsger", "barbara", "leslie"]

/-- The row of the player with a number. -/
def row (number : Nat) (name : String) : Tuple :=
  (((TupleBuilder.start schema).value (.integer (Int32.ofNat number))).value (.string name)
    |>.value (.double (Float.ofNat number * 1.5).toBits)).build

def insert (t : TxnId) (table : TableId) (tuple : Tuple) : Act RecordId := do
  match ← call t (.insertion table tuple) with
  | .inserted tuple (.ok _) => tuple.record.elim (throw .missingRecordId) pure
  | .inserted _ (.error e) => throw e
  | _ => throw .missingRecordId

def delete (t : TxnId) (tuple : Tuple) : Act Unit := do
  match ← call t (.delete tuple none) with
  | .deleted (.error e) => throw e
  | _ => pure ()

def scan (t : TxnId) (table : TableId) : Act (List Tuple) := do
  match ← call t (.wholeScan table) with
  | .scanned _ (some e) => throw e
  | .scanned tuples none => return tuples
  | _ => return []

/-- A text column as a reader of the transcript sees it. -/
def shown : Option Value → String
  | some (.string s) => "Some(String(" ++ Text.quoted s ++ "))"
  | some v => "Some(" ++ v.text ++ ")"
  | none => "None"

def fill (t : TxnId) (table : TableId) : Act Unit := do
  for (name, number) in players.zipIdx do
    let record ← insert t table (row number name)
    say s!"{t.text} inserted {name} at {record.text}"
  act (·.commit t)

/-- A deletion that is taken back. -/
def withdraw (t : TxnId) (table : TableId) : Act Unit := do
  let rows ← scan t table
  if let some victim := rows.find? fun r => r.get? 0 = some (.integer 2) then
    delete t victim
    say ""
    say (t.text ++ " deleted " ++ shown (victim.getNamed? "name") ++ ", then aborts")
  act (·.abort t)

def list (t : TxnId) (table : TableId) : Act Unit := do
  say ""
  say s!"Scan as {t.text}:"
  for r in ← scan t table do
    say ("  " ++ ", ".intercalate (r.values.map Value.text))
  act (·.commit t)

def pathIn (directory name : String) : String :=
  if directory = "" ∨ directory.toList.getLast? = some '/' then directory ++ name
  else directory ++ "/" ++ name

def play (directory : String) : Act Unit := do
  say "Shale - page cache, page locks and heap files"
  say "=============================================="
  say ""
  let table ← act (·.createTable "players" (pathIn directory "shale_demo.dat") schema)
  say s!"Created table 'players' at {table.file.path} ({schema.width} bytes per tuple)"
  let capacity := (← get).session.store.config.capacity
  say s!"Created buffer pool with {capacity} pages"
  say ""
  fill ⟨1⟩ table.id
  withdraw ⟨2⟩ table.id
  list ⟨3⟩ table.id
  let stats := (← get).session.store.cache.stats
  let pages ← act fun s => (s, s.countPages table.id)
  say ""
  say (s!"Pool stats: {stats.hits} hits, {stats.misses} misses, {stats.evictions} evictions; "
    ++ s!"{pages} pages on disk")
  say ""
  say "Demo completed successfully!"

/-- What is said in a directory without tables, and the failure that ended it, if one did. -/
def transcript (directory : String) : List String × Option Error :=
  let stage : Stage := { session := { store := .start {} (.ofDirectory directory) } }
  match (play directory).run.run stage with
  | (.ok (), s) => (s.lines, none)
  | (.error e, s) => (s.lines, some e)

end PageStore.Demo
