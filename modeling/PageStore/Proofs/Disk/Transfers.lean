import PageStore.Disk.PageFile

/-!
# PageStore.Proofs.Disk.Transfers

What one page transfer comes to (`PageFile.read_cases`, `PageFile.write_cases`). It fails and changes
no file, or it gives the page as it is in the file, or puts it there. Which of these depends on the
length of the file and on the next fault of the device only.
-/

namespace PageStore

namespace Volume

variable {v : Volume}

theorem transfer_entries (v : Volume) : v.transfer.2.entries = v.entries := by
  unfold transfer
  split <;> rfl

theorem transfer_of_faultless (h : v.faults = []) : v.transfer = (false, v) := by
  unfold transfer
  rw [h]

theorem content_congr {v' : Volume} (h : v'.entries = v.entries) (k : FileKey) :
    v'.content k = v.content k := by
  unfold content
  rw [h]

end Volume

namespace PageFile

/-- A read starts past the end, or the device fails, or it gives the page. -/
theorem read_cases (f : PageFile) (v : Volume) (n : Nat) :
    ((v.content f.key).wholeCount ≤ n ∧ f.read v n = (v, f, .error (.pastEnd n f.path))) ∨
      n < (v.content f.key).wholeCount ∧
        ((v.transfer.1 = true ∧ f.read v n = (v.transfer.2, f, .error .device)) ∨
          (v.transfer.1 = false ∧ f.read v n =
            (v.transfer.2, { f with reads := counted f.reads }, .ok ((v.content f.key).page n)))) := by
  have hcount := (v.content f.key).read?_isSome_iff n
  unfold read
  cases hr : (v.content f.key).read? n with
  | none =>
    rw [hr] at hcount
    refine .inl ⟨?_, rfl⟩
    simpa using hcount
  | some im =>
    rw [hr] at hcount
    have him : im = (v.content f.key).page n := by
      unfold ByteFile.read? at hr
      split at hr
      · exact (Option.some.inj hr).symm
      · cases hr
    subst him
    refine .inr ⟨hcount.1 rfl, ?_⟩
    dsimp only
    rcases v.transfer with ⟨failed, w⟩
    cases failed with
    | true => exact .inl ⟨rfl, rfl⟩
    | false => exact .inr ⟨rfl, rfl⟩

/-- The device fails, or the page is replaced. -/
theorem write_cases (f : PageFile) (v : Volume) (n : Nat) (im : Image) :
    (v.transfer.1 = true ∧ f.write v n im = (v.transfer.2, f, .error .device)) ∨
      (v.transfer.1 = false ∧ f.write v n im =
        (v.transfer.2.setContent f.key ((v.content f.key).write n im),
          { f with writes := counted f.writes }, .ok ())) := by
  have hcontent := v.content_transfer f.key
  unfold write
  generalize v.transfer = r at hcontent ⊢
  obtain ⟨failed, w⟩ := r
  cases failed with
  | true => exact .inl ⟨rfl, rfl⟩
  | false =>
    dsimp only at hcontent ⊢
    rw [hcontent]
    exact .inr ⟨rfl, rfl⟩

end PageFile

end PageStore
