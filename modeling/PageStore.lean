import PageStore.Catalog
import PageStore.Config
import PageStore.Decimal.Binary
import PageStore.Decimal.Shortest
import PageStore.Decimal.Text
import PageStore.Demo
import PageStore.Disk.File
import PageStore.Disk.PageFile
import PageStore.Disk.Queue
import PageStore.Disk.Volume
import PageStore.Error
import PageStore.Id
import PageStore.Lock.Holders
import PageStore.Lock.Manager
import PageStore.Lock.Mode
import PageStore.Lock.WaitGraph
import PageStore.Main
import PageStore.Page.Basic
import PageStore.Page.Image
import PageStore.Page.Slots
import PageStore.Pool.Cache
import PageStore.Pool.Recency
import PageStore.Proofs.Disk.Opens
import PageStore.Proofs.Disk.Pages
import PageStore.Proofs.Disk.Requests
import PageStore.Proofs.Disk.Traffic
import PageStore.Proofs.Lock.Deadlock
import PageStore.Proofs.Lock.Decisions
import PageStore.Proofs.Lock.Edges
import PageStore.Proofs.Lock.Exclusion
import PageStore.Proofs.Lock.Index
import PageStore.Proofs.Lock.Modes
import PageStore.Proofs.Lock.Run
import PageStore.Proofs.Lock.Search
import PageStore.Proofs.Lock.Triples
import PageStore.Proofs.Lock.Waking
import PageStore.Proofs.Page.Geometry
import PageStore.Proofs.Page.SlotMap
import PageStore.Proofs.Page.Stored
import PageStore.Proofs.Page.Tuples
import PageStore.Proofs.Pool.Copies
import PageStore.Proofs.Pool.Listing
import PageStore.Proofs.Pool.Recent
import PageStore.Proofs.Pool.Residents
import PageStore.Proofs.Store.Abort
import PageStore.Proofs.Store.Alone
import PageStore.Proofs.Store.Answers
import PageStore.Proofs.Store.Append
import PageStore.Proofs.Store.Asleep
import PageStore.Proofs.Store.Browsing
import PageStore.Proofs.Store.Caching
import PageStore.Proofs.Store.Change
import PageStore.Proofs.Store.Coherent
import PageStore.Proofs.Store.Commit
import PageStore.Proofs.Store.Content
import PageStore.Proofs.Store.Cursors
import PageStore.Proofs.Store.Durable
import PageStore.Proofs.Store.Engine
import PageStore.Proofs.Store.Eviction
import PageStore.Proofs.Store.Failure
import PageStore.Proofs.Store.FirstFit
import PageStore.Proofs.Store.Handle
import PageStore.Proofs.Store.Isolation
import PageStore.Proofs.Store.Keeps
import PageStore.Proofs.Store.Ledger
import PageStore.Proofs.Store.Occupancy
import PageStore.Proofs.Store.Opened
import PageStore.Proofs.Store.Records
import PageStore.Proofs.Store.Reference
import PageStore.Proofs.Store.Registry
import PageStore.Proofs.Store.Residency
import PageStore.Proofs.Store.Sizes
import PageStore.Proofs.Store.Steps
import PageStore.Proofs.Store.Turn
import PageStore.Proofs.Store.View
import PageStore.Proofs.Tuple.Building
import PageStore.Proofs.Tuple.Decoded
import PageStore.Proofs.Tuple.Layout
import PageStore.Proofs.Tuple.Normal
import PageStore.Proofs.Tuple.Padding
import PageStore.Proofs.Tuple.RoundTrip
import PageStore.Session
import PageStore.Store.Basic
import PageStore.Store.Call
import PageStore.Store.Pages
import PageStore.Store.Transaction
import PageStore.Text.Blank
import PageStore.Text.Quoted
import PageStore.Text.Unseen
import PageStore.Text.Utf8
import PageStore.Tuple.Basic
import PageStore.Tuple.Builder
import PageStore.Tuple.ColumnType
import PageStore.Tuple.Field
import PageStore.Tuple.Number
import PageStore.Tuple.Schema
import PageStore.Tuple.Value
