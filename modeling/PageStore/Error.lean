import PageStore.Id
import PageStore.Text.Quoted
import PageStore.Tuple.ColumnType
import PageStore.Tuple.Value

/-!
# PageStore.Error

Why an operation of the store fails. Each cause is a constructor; its wording is `Error.message`.
Only a lock request that was given up obliges the caller to roll its transaction back
(`Error.isAbort`).
-/

namespace PageStore

/-- Why the file system, or a page transfer, failed. -/
inductive IoFault where
  /-- No such file or directory. -/
  | notFound
  /-- A directory stands where a file is wanted. -/
  | isADirectory
  /-- A file stands where a directory is wanted. -/
  | notADirectory
  /-- Something of that name is there already. -/
  | alreadyExists
  /-- A name that is too long. -/
  | invalidFilename
  /-- A name that no file can have. -/
  | invalidInput
  /-- A length that no file can have. -/
  | fileTooLarge
  /-- A read that starts at or past the end of the file. -/
  | pastEnd (page : Nat) (path : String)
  /-- The device failed. -/
  | device
  deriving DecidableEq, Repr

def IoFault.text : IoFault → String
  | .notFound => "No such file or directory"
  | .isADirectory => "Is a directory"
  | .notADirectory => "Not a directory"
  | .alreadyExists => "File exists"
  | .invalidFilename => "File name too long"
  | .invalidInput => "file name contained an unexpected NUL byte"
  | .fileTooLarge => "File too large"
  | .pastEnd page path => s!"page {page} is past the end of " ++ Text.quoted path
  | .device => "Input/output error"

/-- Why a tuple, its schema and a slot do not go together. -/
inductive Mismatch where
  /-- The tuple has another schema than the page it is to be put in. -/
  | pageSchema (page : PageId)
  /-- The tuple has another schema than the table it is to be put in. -/
  | tableSchema (table : TableId)
  /-- The place is too short to write the tuple to. -/
  | slotTooShort (slot width : Nat)
  /-- The bytes are too few to read a tuple from. -/
  | tupleTooShort (width slot : Nat)
  /-- The bytes end within a column. -/
  | truncated (column : String)
  /-- NULL in a column that does not take it. -/
  | notNullable (column : String)
  /-- A value that the column's type does not take. -/
  | misfit (value : Value) (column : String) (type : ColumnType)
  /-- A cause given in words. -/
  | stated (text : String)
  deriving DecidableEq

def Mismatch.text : Mismatch → String
  | .pageSchema page => s!"tuple does not match the schema of {page.text}"
  | .tableSchema table => s!"tuple does not match the schema of {table.text}"
  | .slotTooShort slot width => s!"slot of {slot} bytes cannot hold a {width} byte tuple"
  | .tupleTooShort width slot => s!"tuple needs {width} bytes, slot has {slot}"
  | .truncated column => s!"truncated column {column}"
  | .notNullable column => s!"column {column} is not nullable"
  | .misfit value column type =>
    s!"value {value.text} does not fit column {column} of type {type.text}"
  | .stated text => text

/-- Why an operation failed. -/
inductive Error where
  | io (fault : IoFault)
  /-- The wait for a page lock was given up. -/
  | aborted (txn : TxnId)
  /-- No page of the pool may be evicted. -/
  | poolFull (capacity : Nat)
  /-- A record names a page that the table does not have. -/
  | pageOutOfRange (page : PageId) (count : Nat)
  /-- The queue of page transfers is gone. -/
  | queue (reason : String)
  /-- A page cannot hold one tuple of the schema. -/
  | tupleTooLarge (width : Nat)
  | schemaMismatch (cause : Mismatch)
  | pageFull (page : PageId)
  | invalidSlot (slot : Nat)
  | emptySlot (slot : Nat)
  /-- The tuple is not stored anywhere. -/
  | missingRecordId
  | recordNotOnPage (record : RecordId) (page : PageId)
  | tableMismatch (record : RecordId) (table : TableId)
  | tableExists (name : String)
  | tableNotFound (table : TableId)
  | tableNameNotFound (name : String)
  deriving DecidableEq

namespace Error

/-- Whether the caller must roll its transaction back. -/
def isAbort : Error → Bool
  | .aborted _ => true
  | _ => false

def message : Error → String
  | .io fault => "I/O error: " ++ fault.text
  | .aborted txn => s!"Transaction {txn.text} aborted while waiting for a page lock"
  | .poolFull capacity =>
    s!"Buffer pool is full ({capacity} pages), no evictable page available"
  | .pageOutOfRange page count =>
    s!"Page {page.text} is beyond the end of the table ({count} pages)"
  | .queue reason => "Disk scheduler error: " ++ reason
  | .tupleTooLarge width => s!"Tuple width {width} does not fit a single slot in a page"
  | .schemaMismatch cause => "Schema mismatch: " ++ cause.text
  | .pageFull page => s!"Page {page.text} has no empty slot"
  | .invalidSlot slot => s!"Invalid slot ID: {slot}"
  | .emptySlot slot => s!"Slot {slot} is empty"
  | .missingRecordId => "Tuple has no record ID"
  | .recordNotOnPage record page => s!"Record {record.text} does not belong to page {page.text}"
  | .tableMismatch record table =>
    s!"Record {record.text} does not belong to table {table.text}"
  | .tableExists name => s!"Table {name} already exists"
  | .tableNotFound table => s!"Table {table.text} not found"
  | .tableNameNotFound name => s!"Table named {name} not found"

end Error
end PageStore
