import PageStore.Disk.PageFile

/-!
# PageStore.Proofs.Disk.Opens

A path that leads to a file goes on leading to it. `Opens` says that opening a path finds a file of
a given key; it depends only on which plain paths are files and which are directories, so it
survives whatever is written to the files, and whatever is made beside them (`Extends`).
-/

namespace PageStore

def Entry.isFile : Entry → Bool
  | .directory => false
  | .file _ => true

namespace Volume

variable {v v' v'' : Volume} {path : String} {k : FileKey}

/-- Every file and every directory is still there, as a file or as a directory. -/
def Extends (v v' : Volume) : Prop :=
  ∀ (k : FileKey) (e : Entry), v.entries[k]? = some e →
    ∃ e' : Entry, v'.entries[k]? = some e' ∧ e'.isFile = e.isFile

theorem Extends.refl (v : Volume) : v.Extends v := fun _ e h => ⟨e, h, rfl⟩

theorem Extends.trans (h : v.Extends v') (h' : v'.Extends v'') : v.Extends v'' := by
  intro k e he
  obtain ⟨e', he', hk⟩ := h k e he
  obtain ⟨e'', he'', hk'⟩ := h' k e' he'
  exact ⟨e'', he'', hk'.trans hk⟩

theorem Extends.of_entries (h : v'.entries = v.entries) : v.Extends v' := by
  intro k e he
  exact ⟨e, by rw [h]; exact he, rfl⟩

/-- Opening the path finds the file of a key. -/
def Opens (v : Volume) (path : String) (k : FileKey) : Prop :=
  ∃ ps pl f, parts? path = .ok ps ∧
    v.walk [] (if endsInSlash path then ps.dropLast ++ [['.']] else ps) = .ok pl ∧
    pl.entry = some (.file f) ∧ k = key pl.parts

theorem entry?_extends (h : v.Extends v') {ps : List (List Char)} {e : Entry}
    (he : v.entry? ps = some e) : ∃ e', v'.entry? ps = some e' ∧ e'.isFile = e.isFile := by
  unfold entry? at he ⊢
  by_cases hps : ps = []
  · rw [if_pos hps] at he ⊢
    exact ⟨e, he, rfl⟩
  · rw [if_neg hps] at he ⊢
    exact h _ _ he

theorem walk_extends (h : v.Extends v') {ps : List (List Char)} :
    ∀ {done : List (List Char)} {pl : Place}, v.walk done ps = .ok pl →
      pl.entry = v.entry? pl.parts ∧ v'.walk done ps = .ok ⟨pl.parts, v'.entry? pl.parts⟩ := by
  induction ps with
  | nil =>
    intro done pl hw
    cases hw
    exact ⟨rfl, rfl⟩
  | cons part rest ih =>
    intro done pl hw
    unfold walk at hw ⊢
    cases he : v.entry? done with
    | none => rw [he] at hw; cases hw
    | some e =>
      obtain ⟨e', he', hk⟩ := entry?_extends h he
      rw [he] at hw
      rw [he']
      cases e with
      | file f => cases hw
      | directory =>
        cases e' with
        | file f => cases hk
        | directory =>
          dsimp only at hw ⊢
          by_cases hdot : part = ['.']
          · rw [if_pos hdot] at hw ⊢
            exact ih hw
          · rw [if_neg hdot] at hw ⊢
            by_cases hup : part = ['.', '.']
            · rw [if_pos hup] at hw ⊢
              exact ih hw
            · rw [if_neg hup] at hw ⊢
              by_cases hlong : partLimit < (Text.encode part).length
              · rw [if_pos hlong] at hw
                cases hw
              · rw [if_neg hlong] at hw ⊢
                exact ih hw

theorem Opens.openFile (h : v.Opens path k) : v.openFile path = .ok (k, v) := by
  obtain ⟨ps, ⟨parts, entry⟩, f, hps, hw, he, rfl⟩ := h
  dsimp only at he
  subst he
  unfold Volume.openFile
  rw [hps]
  dsimp only
  rw [hw]

theorem Opens.extends (h : v.Opens path k) (hv : v.Extends v') : v'.Opens path k := by
  obtain ⟨ps, pl, f, hps, hw, he, rfl⟩ := h
  obtain ⟨hat, hw'⟩ := walk_extends hv hw
  rw [hat] at he
  obtain ⟨e', he', hk⟩ := entry?_extends hv he
  cases e' with
  | directory => cases hk
  | file f' => exact ⟨ps, _, f', hps, hw', he', rfl⟩

theorem Opens.file (h : v.Opens path k) : ∃ f, v.entries[k]? = some (.file f) := by
  obtain ⟨ps, pl, f, _, hw, he, rfl⟩ := h
  obtain ⟨hat, _⟩ := walk_extends (Extends.refl v) hw
  rw [hat] at he
  unfold entry? at he
  by_cases hroot : pl.parts = []
  · rw [if_pos hroot] at he
    cases he
  · rw [if_neg hroot] at he
    exact ⟨f, he⟩

/-- A file that is opened can be opened again, and what was there is there still. -/
theorem opens_of_openFile (h : v.openFile path = .ok (k, v')) : v'.Opens path k ∧ v.Extends v' := by
  unfold Volume.openFile at h
  cases hps : parts? path with
  | error e => rw [hps] at h; cases h
  | ok ps =>
    rw [hps] at h
    dsimp only at h
    cases hw : v.walk [] (if endsInSlash path then ps.dropLast ++ [['.']] else ps) with
    | error e => rw [hw] at h; cases h
    | ok pl =>
      rw [hw] at h
      obtain ⟨parts, entry⟩ := pl
      obtain ⟨hat, _⟩ := walk_extends (Extends.refl v) hw
      dsimp only at hat
      cases entry with
      | none =>
        cases h
        have hroot : parts ≠ [] := by
          rintro rfl
          cases hat
        have hnone : v.entries[key parts]? = none := by
          unfold entry? at hat
          rw [if_neg hroot] at hat
          exact hat.symm
        have hext : v.Extends { v with entries := v.entries.insert (key parts) (.file .empty) } := by
          intro k e he
          refine ⟨e, ?_, rfl⟩
          have hne : key parts ≠ k := by
            rintro rfl
            rw [hnone] at he
            cases he
          simpa [Std.TreeMap.getElem?_insert, hne] using he
        refine ⟨⟨ps, _, .empty, hps, (walk_extends hext hw).2, ?_, rfl⟩, hext⟩
        unfold entry?
        simp [hroot]
      | some e =>
        cases e with
        | directory => cases h
        | file f =>
          cases h
          exact ⟨⟨ps, _, f, hps, hw, rfl, rfl⟩, Extends.refl v⟩

theorem extends_setContent {f g : ByteFile} (h : v.entries[k]? = some (.file f)) :
    v.Extends (v.setContent k g) := by
  intro k' e he
  unfold setContent
  dsimp only
  rw [Std.TreeMap.getElem?_insert]
  by_cases hk : k = k'
  · subst hk
    rw [h] at he
    cases he
    exact ⟨.file g, by simp, rfl⟩
  · exact ⟨e, by simpa [hk] using he, rfl⟩

end Volume
end PageStore
