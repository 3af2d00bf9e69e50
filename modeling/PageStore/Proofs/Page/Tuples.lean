import PageStore.Proofs.Tuple.RoundTrip

/-!
# PageStore.Proofs.Page.Tuples

The tuples of a page, slot by slot. Bytes of the width of the schema always decode
(`Tuple.decode_total`), so every slot in use has a tuple with its record (`content_of_used`), and a
page always gives all its tuples, in the order of their slots (`tuples_total`, `tuples_eq_ok`).
-/

namespace PageStore

theorem decodeFields_total {bitmap bytes : List UInt8} (cs : List Column) (i : Nat)
    (h : Schema.totalSize cs ≤ bytes.length) : ∃ vs, decodeFields bitmap i cs bytes = .ok vs := by
  induction cs generalizing i bytes with
  | nil => exact ⟨[], rfl⟩
  | cons c rest ih =>
    unfold Schema.totalSize at h
    have hrest : Schema.totalSize rest ≤ (bytes.drop c.type.size).length := by
      rw [List.length_drop]
      omega
    obtain ⟨vs, hvs⟩ := ih (i + 1) hrest
    refine ⟨(if Bits.get bitmap i then .null else c.type.decode (bytes.take c.type.size)) :: vs, ?_⟩
    unfold decodeFields ColumnType.read
    rw [if_neg (by omega)]
    dsimp only
    rw [hvs]

theorem Tuple.decode_total {schema : Schema} {bytes : List UInt8}
    (h : schema.width ≤ bytes.length) : ∃ u, Tuple.decode schema bytes = .ok u := by
  have hbody : Schema.totalSize schema.columns ≤
      ((bytes.take schema.width).drop schema.bitmapSize).length := by
    rw [List.length_drop, List.length_take, Nat.min_eq_left h]
    unfold Schema.width
    omega
  obtain ⟨vs, hvs⟩ := decodeFields_total schema.columns 0 hbody
  exact ⟨⟨schema, vs, none, length_decodeFields hvs⟩, Tuple.decode_eq_ok.2 ⟨h, rfl, rfl, hvs⟩⟩

/-- What goes through a list without a failure. -/
theorem mapM_eq_ok {α β ε : Type} {f : α → Except ε β} {xs : List α} {ys : List β}
    (h : xs.mapM f = .ok ys) : ys.map some = xs.map fun x => (f x).toOption := by
  induction xs generalizing ys with
  | nil =>
    cases h
    rfl
  | cons x xs ih =>
    rw [List.mapM_cons] at h
    cases hx : f x with
    | error e =>
      rw [hx] at h
      cases h
    | ok y =>
      rw [hx] at h
      cases hxs : xs.mapM f with
      | error e =>
        rw [hxs] at h
        cases h
      | ok rest =>
        rw [hxs] at h
        cases h
        rw [List.map_cons, List.map_cons, ih hxs, hx]
        rfl

theorem mapM_total {α β ε : Type} {f : α → Except ε β} {xs : List α}
    (h : ∀ x ∈ xs, ∃ y, f x = .ok y) : ∃ ys, xs.mapM f = .ok ys := by
  induction xs with
  | nil => exact ⟨[], rfl⟩
  | cons x xs ih =>
    obtain ⟨y, hy⟩ := h x List.mem_cons_self
    have hrest : ∀ a ∈ xs, ∃ y, f a = .ok y := by
      intro a ha
      exact h a (List.mem_cons_of_mem _ ha)
    obtain ⟨ys, hys⟩ := ih hrest
    refine ⟨y :: ys, ?_⟩
    rw [List.mapM_cons, hy, hys]
    rfl

namespace Page

variable {p : Page} {slot : Nat} {u : Tuple} {us : List Tuple}

/-- The tuples of a page, each at its slot. -/
def content (p : Page) (slot : Nat) : Option Tuple := (p.tuple slot).toOption

theorem content_of_used (h : p.isUsed slot = true) :
    ∃ u, p.tuple slot = .ok u ∧ u.record = some ⟨p.id, slot⟩ := by
  unfold isUsed at h
  rw [Bool.and_eq_true, decide_eq_true_eq] at h
  obtain ⟨hin, hbit⟩ := h
  obtain ⟨u, hu⟩ := Tuple.decode_total (Nat.le_of_eq (p.length_slotBytes slot).symm)
  refine ⟨{ u with record := some (p.recordAt slot) }, ?_, congrArg some (recordAt_eq hin)⟩
  unfold tuple
  rw [if_neg (by omega), if_neg (by simp [hbit]), hu]

theorem content_of_free (h : p.isUsed slot = false) : p.content slot = none := by
  rw [isUsed_eq, Option.isSome_eq_false_iff, Option.isNone_iff_eq_none] at h
  unfold content
  rw [p.holds_stored.tuple slot, h]
  rfl

theorem isUsed_eq_isSome (p : Page) (slot : Nat) : p.isUsed slot = (p.content slot).isSome := by
  cases h : p.isUsed slot with
  | true =>
    obtain ⟨u, hu, _⟩ := content_of_used h
    unfold content
    rw [hu]
    rfl
  | false =>
    rw [content_of_free h]
    rfl

theorem record_of_content (h : p.content slot = some u) : u.record = some ⟨p.id, slot⟩ := by
  have hused : p.isUsed slot = true := by
    rw [isUsed_eq_isSome, h]
    rfl
  obtain ⟨u', hu', hrecord⟩ := content_of_used hused
  unfold content at h
  rw [hu'] at h
  cases h
  exact hrecord

theorem mem_usedSlots : slot ∈ p.usedSlots ↔ p.isUsed slot = true := by
  unfold usedSlots isUsed
  rw [List.mem_filter, List.mem_range, Bool.and_eq_true, decide_eq_true_eq]

theorem usedSlots_sorted (p : Page) : p.usedSlots.Pairwise (· < ·) :=
  List.Pairwise.filter _ List.pairwise_lt_range

theorem tuples_total (p : Page) : ∃ us, p.tuples = .ok us := by
  apply mapM_total
  intro slot hslot
  obtain ⟨u, hu, _⟩ := content_of_used (mem_usedSlots.1 hslot)
  exact ⟨u, hu⟩

theorem tuples_eq_ok (h : p.tuples = .ok us) : us.map some = p.usedSlots.map p.content :=
  mapM_eq_ok h

end Page
end PageStore
