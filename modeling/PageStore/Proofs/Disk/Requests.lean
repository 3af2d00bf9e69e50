import Mathlib.Data.List.Induction
import PageStore.Disk.Queue
import PageStore.Proofs.Disk.Pages
import PageStore.Proofs.Disk.Transfers

/-!
# PageStore.Proofs.Disk.Requests

A file read and written by whole pages, on a device that does not fail, against the bytes that it had
at first and the requests so far.

* `readsAs_iff`: which bytes a page is read with, and that a page past the end is not read.
* `serve_write`: what a write leaves.
* `Served`: what some requests leave of a file. A page is what was written to it last, or what it was
  at first (`lastWritten`). A write is seen in its own page only, and the pages between the old end
  and a new page are zero because nothing but zeros lies past the end of a file. One request keeps
  this (`Served.serve`), and so any number do (`served`).
-/

namespace PageStore

namespace Request

/-- The page that a request is about. -/
def page : Request → Nat
  | .read n => n
  | .write n _ => n

/-- What a request puts into page `n`. -/
def written? (n : Nat) : Request → Option Image
  | .read _ => none
  | .write m im => if m = n then some im else none

end Request

/-- What was put into page `n` last. -/
def lastWritten (n : Nat) (rs : List Request) : Option Image :=
  (rs.filterMap (Request.written? n)).getLast?

theorem lastWritten_concat (n : Nat) (rs : List Request) (r : Request) :
    lastWritten n (rs ++ [r]) = (r.written? n).or (lastWritten n rs) := by
  unfold lastWritten
  rw [List.filterMap_append, List.getLast?_append]
  cases h : r.written? n with
  | none => simp [h]
  | some im => simp [h]

namespace Reply

/-- A page was read. -/
def isRead : Reply → Bool
  | .image result => result.isOk
  | .done _ => false

/-- A page was written. -/
def isWritten : Reply → Bool
  | .image _ => false
  | .done result => result.isOk

end Reply

/-- Page numbers are below this, and no file has more pages. -/
def pageLimit : Nat := 4294967295

namespace Drive

variable {d e : Drive} {n : Nat} {im : Image} {data : List UInt8}

/-- What is in the file. -/
def content (d : Drive) : ByteFile := d.volume.content d.file.key

def bytes (d : Drive) : List UInt8 := d.content.toBytes

def pageCount (d : Drive) : Nat := d.file.pageCount d.volume

/-- One page read. -/
def counted (d : Drive) : Drive :=
  { d with file := { d.file with reads := PageFile.counted d.file.reads } }

/-! ## One request -/

theorem serve_read_of_lt (h : d.volume.faults = []) (hn : n < d.content.wholeCount) :
    d.serve (.read n) = (d.counted, .image (.ok (d.content.page n))) := by
  have ht := Volume.transfer_of_faultless h
  obtain ⟨hle, -⟩ | ⟨-, ⟨hfail, -⟩ | ⟨-, hread⟩⟩ := d.file.read_cases d.volume n
  · exact absurd hn (Nat.not_lt.2 hle)
  · rw [ht] at hfail
    cases hfail
  · simp only [serve, hread, ht]
    rfl

theorem serve_read_of_le (hn : d.content.wholeCount ≤ n) :
    d.serve (.read n) = (d, .image (.error (.pastEnd n d.file.path))) := by
  obtain ⟨-, hread⟩ | ⟨hlt, -⟩ := d.file.read_cases d.volume n
  · simp only [serve, hread]
  · exact absurd hlt (Nat.not_lt.2 hn)

theorem serve_write (h : d.volume.faults = []) (n : Nat) (im : Image) :
    d.serve (.write n im) =
      (⟨d.volume.setContent d.file.key (d.content.write n im),
        { d.file with writes := PageFile.counted d.file.writes }⟩, .done (.ok ())) := by
  have ht := Volume.transfer_of_faultless h
  obtain ⟨hfail, -⟩ | ⟨-, hwrite⟩ := d.file.write_cases d.volume n im
  · rw [ht] at hfail
    cases hfail
  · simp only [serve, hwrite, ht]
    rfl

theorem content_serve_write (h : d.volume.faults = []) (n : Nat) (im : Image) :
    (d.serve (.write n im)).1.content = d.content.write n im := by
  rw [serve_write h]
  simp [content, Volume.content_setContent]

theorem faults_serve (h : d.volume.faults = []) (r : Request) :
    (d.serve r).1.volume.faults = [] := by
  cases r with
  | read n =>
    rcases Nat.lt_or_ge n d.content.wholeCount with hn | hn
    · rw [serve_read_of_lt h hn]
      exact h
    · rw [serve_read_of_le hn]
      exact h
  | write n im =>
    rw [serve_write h]
    exact h

/-- Page `n` is read with these bytes, in whatever pieces they come. The read is counted and changes
nothing else. -/
def ReadsAs (d : Drive) (n : Nat) (data : List UInt8) : Prop :=
  (∃ im, im.toList = data ∧ d.serve (.read n) = (d.counted, .image (.ok im))) ∧
    ∀ buffer, Filled d.bytes (n * pageSize) pageSize buffer ↔ buffer = data

theorem readsAs_iff (h : d.volume.faults = []) :
    d.ReadsAs n data ↔ n < d.content.wholeCount ∧ data = (d.content.page n).toList := by
  constructor
  · rintro ⟨⟨im, rfl, hread⟩, -⟩
    rcases Nat.lt_or_ge n d.content.wholeCount with hn | hn
    · rw [serve_read_of_lt h hn] at hread
      cases congrArg Prod.snd hread
      exact ⟨hn, rfl⟩
    · rw [serve_read_of_le hn] at hread
      cases congrArg Prod.snd hread
  · rintro ⟨hn, rfl⟩
    refine ⟨⟨_, rfl, serve_read_of_lt h hn⟩, fun buffer => ?_⟩
    rw [filled_iff, ByteFile.toList_page, bytes]

/-- After a write the page is read as it was written, an old page as before, and a page that was
skipped as zeros. -/
theorem readsAs_serve_write (h : d.volume.faults = []) (n : Nat) (im : Image) {m : Nat} :
    (d.serve (.write n im)).1.ReadsAs m data ↔
      (m < d.content.wholeCount ∨ m ≤ n) ∧
        data = if m = n then im.toList else (d.content.page m).toList := by
  rw [readsAs_iff (faults_serve h _), content_serve_write h, ByteFile.wholeCount_write,
    ByteFile.page_write]
  have hlt : m < max d.content.wholeCount (n + 1) ↔ m < d.content.wholeCount ∨ m ≤ n := by omega
  rw [hlt]
  split <;> rfl

/-! ## Requests one after another -/

/-- What some requests make of a drive, and what they are answered. -/
structure Served (d : Drive) (rs : List Request) (e : Drive) (replies : List Reply) : Prop where
  faultless : e.volume.faults = []
  path : e.file.path = d.file.path
  page : ∀ n, e.content.page n = (lastWritten n rs).getD (d.content.page n)
  fits : e.content.wholeCount ≤ pageLimit
  reads : e.file.reads = replies.countP Reply.isRead % 4294967296
  writes : e.file.writes = replies.countP Reply.isWritten % 4294967296

namespace Served

variable {rs : List Request} {replies : List Reply}

theorem serve_read (s : Served d rs e replies) (n : Nat) :
    Served d (rs ++ [.read n]) (e.serve (.read n)).1 (replies ++ [(e.serve (.read n)).2]) := by
  have hpage : ∀ m, e.content.page m = (lastWritten m (rs ++ [.read n])).getD (d.content.page m) :=
    fun m => by rw [lastWritten_concat]; exact s.page m
  rcases Nat.lt_or_ge n e.content.wholeCount with hn | hn
  · rw [serve_read_of_lt s.faultless hn]
    refine ⟨s.faultless, s.path, hpage, s.fits, ?_, ?_⟩
    · show PageFile.counted e.file.reads = _
      simp [PageFile.counted, s.reads, Reply.isRead, Except.isOk, Except.toBool]
    · show e.file.writes = _
      simpa [Reply.isWritten] using s.writes
  · rw [serve_read_of_le hn]
    refine ⟨s.faultless, s.path, hpage, s.fits, ?_, ?_⟩
    · simpa [Reply.isRead, Except.isOk, Except.toBool] using s.reads
    · simpa [Reply.isWritten] using s.writes

theorem serve_write (s : Served d rs e replies) {n : Nat} (hn : n < pageLimit) (im : Image) :
    Served d (rs ++ [.write n im]) (e.serve (.write n im)).1
      (replies ++ [(e.serve (.write n im)).2]) := by
  have hcontent := content_serve_write s.faultless n im
  have hserve := Drive.serve_write s.faultless n im
  refine ⟨faults_serve s.faultless _, ?_, fun m => ?_, ?_, ?_, ?_⟩
  · rw [hserve]
    exact s.path
  · rw [hcontent, ByteFile.page_write, lastWritten_concat, s.page]
    by_cases hm : m = n
    · simp [Request.written?, hm]
    · simp [Request.written?, hm, Ne.symm hm]
  · rw [hcontent, ByteFile.wholeCount_write]
    exact Nat.max_le.2 ⟨s.fits, hn⟩
  · rw [hserve]
    simpa [Reply.isRead] using s.reads
  · rw [hserve]
    show PageFile.counted e.file.writes = _
    simp [PageFile.counted, s.writes, Reply.isWritten, Except.isOk, Except.toBool]

theorem serve (s : Served d rs e replies) {r : Request} (hr : r.page < pageLimit) :
    Served d (rs ++ [r]) (e.serve r).1 (replies ++ [(e.serve r).2]) := by
  cases r with
  | read n => exact s.serve_read n
  | write n im => exact s.serve_write hr im

end Served

theorem served {rs : List Request} (hfaults : d.volume.faults = [])
    (hfits : d.content.wholeCount ≤ pageLimit) (hreads : d.file.reads = 0)
    (hwrites : d.file.writes = 0) (hpages : ∀ r ∈ rs, r.page < pageLimit) :
    Served d rs (d.serveAll rs).1 (d.serveAll rs).2 := by
  induction rs using List.reverseRecOn with
  | nil => exact ⟨hfaults, rfl, fun n => rfl, hfits, hreads, hwrites⟩
  | append_singleton rs r ih =>
    rw [serveAll_concat]
    exact (ih fun q hq => hpages q (by simp [hq])).serve (hpages r (by simp))

theorem pageCount_eq (h : d.content.wholeCount ≤ pageLimit) : d.pageCount = d.content.wholeCount :=
  Nat.mod_eq_of_lt (Nat.lt_succ_of_le h)

/-- A page file that is opened and sent requests, fewer than it can count. A page is read exactly if
its number is below the page count, as it was written last or else as it was at first, with zeros
where the file ended. A write puts the page over the bytes that were there. It is read back, every
other page that the file had is read as before, and the pages that it skips are zeros. The counts are
those of the transfers that succeeded. -/
theorem pages_read_as_written {v : Volume} {key : FileKey} (path : String) {rs : List Request}
    (hfaults : v.faults = []) (hfits : (v.content key).wholeCount ≤ pageLimit)
    (hpages : ∀ r ∈ rs, r.page < pageLimit) (hlen : rs.length < 4294967296) :
    let d : Drive := ⟨v, { key, path }⟩
    let e := (d.serveAll rs).1
    let replies := (d.serveAll rs).2
    (∀ n < pageLimit,
      (n < e.pageCount →
        e.ReadsAs n (((lastWritten n rs).map Image.toList).getD
          (padded d.bytes (n * pageSize) pageSize))) ∧
      (e.pageCount ≤ n → e.serve (.read n) = (e, .image (.error (.pastEnd n path))))) ∧
    (∀ n < pageLimit, ∀ im,
      let e' := (e.serve (.write n im)).1
      (e.serve (.write n im)).2 = .done (.ok ()) ∧
      e'.pageCount = max e.pageCount (n + 1) ∧
      e'.bytes = ByteFile.overwritten e.bytes (n * pageSize) im.toList ∧
      e'.ReadsAs n im.toList ∧
      (∀ m < e.pageCount, m ≠ n → ∀ data, e'.ReadsAs m data ↔ e.ReadsAs m data) ∧
      (∀ m < n, e.pageCount ≤ m → e'.ReadsAs m (List.replicate pageSize 0))) ∧
    e.file.reads = replies.countP Reply.isRead ∧
    e.file.writes = replies.countP Reply.isWritten := by
  intro d e replies
  have s : Served d rs e replies := served hfaults hfits rfl rfl hpages
  have hcount : e.pageCount = e.content.wholeCount := pageCount_eq s.fits
  have hreplies : replies.length = rs.length := d.length_serveAll rs
  refine ⟨fun n _ => ⟨fun hlt => ?_, fun hle => ?_⟩, fun n hn im => ⟨?_, ?_, ?_, ?_, ?_, ?_⟩, ?_, ?_⟩
  · rw [readsAs_iff s.faultless, s.page]
    refine ⟨hcount ▸ hlt, ?_⟩
    cases lastWritten n rs with
    | none =>
      rw [Option.map_none, Option.getD_none, Option.getD_none, ByteFile.toList_page, bytes]
    | some im => rfl
  · rw [serve_read_of_le (hcount ▸ hle), s.path]
  · rw [serve_write s.faultless]
  · rw [pageCount_eq (s.serve_write hn im).fits, content_serve_write s.faultless,
      ByteFile.wholeCount_write, hcount]
  · rw [bytes, content_serve_write s.faultless, ByteFile.toBytes_write, bytes]
  · exact (readsAs_serve_write s.faultless n im).2 ⟨.inr (Nat.le_refl n), (if_pos rfl).symm⟩
  · intro m hm hmn data
    rw [readsAs_serve_write s.faultless, readsAs_iff s.faultless, if_neg hmn]
    exact and_congr_left' ⟨fun _ => hcount ▸ hm, .inl⟩
  · intro m hm hle
    rw [readsAs_serve_write s.faultless, if_neg (Nat.ne_of_lt hm),
      ByteFile.page_blank_of_le _ (hcount ▸ hle)]
    exact ⟨.inr (Nat.le_of_lt hm), Image.toList_blank.symm⟩
  · rw [s.reads]
    exact Nat.mod_eq_of_lt (Nat.lt_of_le_of_lt List.countP_le_length (hreplies ▸ hlen))
  · rw [s.writes]
    exact Nat.mod_eq_of_lt (Nat.lt_of_le_of_lt List.countP_le_length (hreplies ▸ hlen))

/-- A file of ten bytes, which end within its first page. -/
def ragged : Volume :=
  Volume.setContent ⟨∅, [], false⟩ "/db/t.dat" (.ofBytes (List.replicate 10 5))

def raggedFile : Drive := ⟨ragged, { key := "/db/t.dat", path := "/db/t.dat" }⟩

/-- A write that skips a page, a read of the old page, and one past the end. -/
def tour : List Request := [.write 2 (.ofBytes [7]), .read 0, .read 5]

theorem bytes_raggedFile : raggedFile.bytes = List.replicate 10 5 := by
  rw [bytes, content, raggedFile, ragged, Volume.content_setContent, if_pos rfl,
    ByteFile.toBytes_ofBytes]

/-- The old page keeps its ten bytes, and a write of page 4 leaves zeros in page 3. -/
theorem ragged_file_grows :
    (ragged.faults = [] ∧ (ragged.content "/db/t.dat").wholeCount ≤ pageLimit ∧
      (∀ r ∈ tour, r.page < pageLimit) ∧ tour.length < 4294967296) ∧
    let e := (raggedFile.serveAll tour).1
    e.pageCount = 3 ∧
    e.ReadsAs 0 (List.replicate 10 5 ++ List.replicate 4086 0) ∧
    e.ReadsAs 2 (Image.ofBytes [7]).toList ∧
    e.serve (.read 5) = (e, .image (.error (.pastEnd 5 "/db/t.dat"))) ∧
    (e.serve (.write 4 .blank)).1.ReadsAs 3 (List.replicate pageSize 0) ∧
    e.file.reads = 1 ∧ e.file.writes = 1 := by
  have hfits : (ragged.content "/db/t.dat").wholeCount ≤ pageLimit := by decide
  have hpages : ∀ r ∈ tour, r.page < pageLimit := by decide
  obtain ⟨hread, hwrite, hreads, hwrites⟩ :=
    pages_read_as_written "/db/t.dat" rfl hfits hpages (by decide)
  have hcount : (raggedFile.serveAll tour).1.pageCount = 3 := by decide
  have hold : (raggedFile.serveAll tour).1.ReadsAs 0
      (((lastWritten 0 tour).map Image.toList).getD
        (padded raggedFile.bytes (0 * pageSize) pageSize)) :=
    (hread 0 (by decide)).1 (by decide)
  have htwo : (raggedFile.serveAll tour).1.ReadsAs 2 (Image.ofBytes [7]).toList :=
    (hread 2 (by decide)).1 (by decide)
  have hnever : lastWritten 0 tour = none := rfl
  rw [hnever, Option.map_none, Option.getD_none, bytes_raggedFile] at hold
  refine ⟨⟨rfl, hfits, hpages, by decide⟩, hcount, hold, htwo, ?_, ?_, ?_, ?_⟩
  · exact (hread 5 (by decide)).2 (by decide)
  · exact (hwrite 4 (by decide) .blank).2.2.2.2.2 3 (by decide) (by decide)
  · exact hreads.trans (by decide)
  · exact hwrites.trans (by decide)

end Drive

end PageStore
