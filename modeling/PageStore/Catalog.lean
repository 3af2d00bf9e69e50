import PageStore.Disk.PageFile
import PageStore.Page.Slots
import PageStore.Tuple.Schema

/-!
# PageStore.Catalog

The registered tables. A table gets the next free number when it is registered, and neither its
name nor its number ever changes. A registration that is refused leaves the catalog as it was, and
no file is touched either: the name is taken, the tuples are too wide, or the file does not open.
-/

namespace PageStore

structure Table where
  id : TableId
  name : String
  schema : Schema
  file : PageFile
  deriving DecidableEq

/-- The table in one line. -/
def Table.describe (t : Table) : String :=
  "HeapFile \x7b table_id: " ++ t.id.text ++ ", path: " ++ Text.quoted t.file.path
    ++ ", tuple_size: " ++ toString t.schema.width ++ " \x7d"

/-- The tables in the order of their numbers. -/
structure Catalog where
  tables : List Table := []

namespace Catalog

def table? (c : Catalog) (id : TableId) : Option Table := c.tables[id.val]?

def idOf? (c : Catalog) (name : String) : Option TableId :=
  (c.tables.find? fun t => t.name = name).map (·.id)

def nameOf? (c : Catalog) (id : TableId) : Option String := (c.table? id).map (·.name)

/-- The numbers of all tables, in ascending order. -/
def ids (c : Catalog) : List TableId := c.tables.map (·.id)

/-- Registers a table under a name, with the file at a path, which is made if it is not there. This
is the call up to the line for the log that it may end with (`Store.createTable`). -/
def create (c : Catalog) (v : Volume) (name path : String) (schema : Schema) :
    Except Error (Table × Catalog × Volume) :=
  if (c.idOf? name).isSome then .error (.tableExists name)
  else if slotsPerPage schema.width = 0 then .error (.tupleTooLarge schema.width)
  else
    match PageFile.openAt v path with
    | .error e => .error (.io e)
    | .ok (file, v) =>
      let t : Table := { id := ⟨c.tables.length⟩, name, schema, file }
      .ok (t, ⟨c.tables ++ [t]⟩, v)

/-- Replaces what is known of a table's file. -/
def setFile (c : Catalog) (id : TableId) (file : PageFile) : Catalog :=
  ⟨c.tables.modify id.val fun t => { t with file }⟩

end Catalog
end PageStore
