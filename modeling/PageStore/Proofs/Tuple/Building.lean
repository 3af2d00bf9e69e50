import PageStore.Tuple.Builder

/-!
# PageStore.Proofs.Tuple.Building

What a sequence of steps on a builder makes of each column. A step that gives a value either fills
the position, which moves on, or the column of a name, wherever the position is; a skip moves on
without a value. `built_tuple` says that each column has the value it was given last, and NULL if it
was given none.

A skip is meant to put NULL where it passes (`means?`), and it does put none (`gives?`). The two come
to the same unless the column that is skipped has a value already, which only a name can have given
it, and is given no other one later (`PassedOver`).
-/

namespace PageStore

/-- One step on a builder. -/
inductive BuilderStep where
  | value (v : Value)
  | skip
  | setNamed (name : String) (v : Value)
  deriving DecidableEq

namespace BuilderStep

/-- The position behind a step that begins at a position. -/
def next (pos : Nat) : BuilderStep → Nat
  | value _ => pos + 1
  | skip => pos + 1
  | setNamed _ _ => pos

/-- The value that a step puts into column `i`, if it puts one there. -/
def gives? (s : Schema) (i pos : Nat) : BuilderStep → Option Value
  | value v => if pos = i then some v else none
  | skip => none
  | setNamed name v => if s.indexOf? name = some i then some v else none

/-- The value that a step is meant to put into column `i`: a skip puts NULL where it passes. -/
def means? (s : Schema) (i pos : Nat) : BuilderStep → Option Value
  | value v => if pos = i then some v else none
  | skip => if pos = i then some .null else none
  | setNamed name v => if s.indexOf? name = some i then some v else none

/-- The position behind some steps. -/
def endOf (pos : Nat) : List BuilderStep → Nat
  | [] => pos
  | st :: rest => endOf (st.next pos) rest

/-- All values that steps put into one column, in order, the first step being at a position. -/
def puts (put? : Nat → BuilderStep → Option Value) (pos : Nat) : List BuilderStep → List Value
  | [] => []
  | st :: rest => (put? pos st).toList ++ puts put? (st.next pos) rest

/-- The value that a column has when the steps are done: the last one put there, or NULL. -/
def lastPut (put? : Nat → BuilderStep → Option Value) (steps : List BuilderStep) : Value :=
  (puts put? 0 steps).getLast?.getD .null

/-- A skip passes column `i` when a name has given it a value, and no step gives it one later. -/
def PassedOver (s : Schema) (i : Nat) (steps : List BuilderStep) : Prop :=
  ∃ front rest, steps = front ++ skip :: rest ∧ endOf 0 front = i ∧
    lastPut (gives? s i) front ≠ .null ∧ puts (gives? s i) (i + 1) rest = []

variable {s : Schema} {i pos : Nat} {st : BuilderStep} {steps : List BuilderStep}

theorem puts_append (put? : Nat → BuilderStep → Option Value) (pos : Nat)
    (front rest : List BuilderStep) :
    puts put? pos (front ++ rest) = puts put? pos front ++ puts put? (endOf pos front) rest := by
  induction front generalizing pos with
  | nil => rfl
  | cons st front ih =>
    rw [List.cons_append, puts, puts, ih, List.append_assoc]
    rfl

theorem le_next (pos : Nat) (st : BuilderStep) : pos ≤ st.next pos := by
  cases st with
  | value v => exact Nat.le_succ pos
  | skip => exact Nat.le_succ pos
  | setNamed name v => exact Nat.le_refl pos

/-- Only a skip that passes the column is meant to do what it does not. -/
theorem means?_eq_gives? (h : st = skip → pos ≠ i) : st.means? s i pos = st.gives? s i pos := by
  cases st with
  | value v => rfl
  | skip => exact if_neg (h rfl)
  | setNamed name v => rfl

theorem puts_behind (h : i < pos) : puts (means? s i) pos steps = puts (gives? s i) pos steps := by
  induction steps generalizing pos with
  | nil => rfl
  | cons st rest ih =>
    have hnext : i < st.next pos := Nat.lt_of_lt_of_le h (le_next pos st)
    rw [puts, puts, ih hnext, means?_eq_gives? fun _ => Nat.ne_of_gt h]

/-- Either no skip passes the column, or there is the one that does. -/
theorem puts_meant (s : Schema) (steps : List BuilderStep) (h : pos ≤ i) :
    puts (means? s i) pos steps = puts (gives? s i) pos steps ∨
      ∃ front rest, steps = front ++ skip :: rest ∧ endOf pos front = i ∧
        puts (means? s i) pos front = puts (gives? s i) pos front := by
  induction steps generalizing pos with
  | nil => exact .inl rfl
  | cons st rest ih =>
    by_cases hskip : st = skip ∧ pos = i
    · obtain ⟨rfl, rfl⟩ := hskip
      exact .inr ⟨[], rest, rfl, rfl, rfl⟩
    · have hst : st.means? s i pos = st.gives? s i pos :=
        means?_eq_gives? fun hs hp => hskip ⟨hs, hp⟩
      rcases Nat.lt_or_ge i (st.next pos) with hbehind | hahead
      · left
        rw [puts, puts, hst, puts_behind hbehind]
      · rcases ih hahead with hsame | ⟨front, back, rfl, hend, hfront⟩
        · left
          rw [puts, puts, hst, hsame]
        · refine .inr ⟨st :: front, back, rfl, hend, ?_⟩
          rw [puts, puts, hst, hfront]

/-- What was put into a column that a skip has passed, and what was meant. -/
theorem puts_passed {front : List BuilderStep} (s : Schema) (rest : List BuilderStep)
    (h : endOf 0 front = i) :
    puts (gives? s i) 0 (front ++ skip :: rest) =
        puts (gives? s i) 0 front ++ puts (gives? s i) (i + 1) rest ∧
      puts (means? s i) 0 (front ++ skip :: rest) =
        puts (means? s i) 0 front ++ .null :: puts (gives? s i) (i + 1) rest := by
  constructor
  · rw [puts_append, h]
    rfl
  · have hmeans : skip.means? s i i = some .null := if_pos rfl
    have hnext : skip.next i = i + 1 := rfl
    rw [puts_append, h, puts, hmeans, hnext, puts_behind (Nat.lt_succ_self i)]
    rfl

/-- What a column is given is what is meant, unless a skip has passed over the value of a name. -/
theorem lastPut_eq_iff :
    lastPut (gives? s i) steps = lastPut (means? s i) steps ↔ ¬ PassedOver s i steps := by
  constructor
  · rintro hsame ⟨front, rest, rfl, hend, hvalue, hrest⟩
    obtain ⟨hgiven, hmeant⟩ := puts_passed s rest hend
    rw [hrest] at hgiven hmeant
    apply hvalue
    calc lastPut (gives? s i) front
        = lastPut (gives? s i) (front ++ skip :: rest) := by
          unfold lastPut
          rw [hgiven, List.append_nil]
      _ = lastPut (means? s i) (front ++ skip :: rest) := hsame
      _ = .null := by
          unfold lastPut
          rw [hmeant, List.getLast?_concat]
          rfl
  · intro hpassed
    rcases puts_meant s steps (Nat.zero_le i) with hsame |
      ⟨front, rest, rfl, hend, hfront⟩
    · unfold lastPut
      rw [hsame]
    · obtain ⟨hgiven, hmeant⟩ := puts_passed s rest hend
      unfold lastPut
      rw [hgiven, hmeant, List.getLast?_append, List.getLast?_append, List.getLast?_cons]
      cases hrest : (puts (gives? s i) (i + 1) rest).getLast? with
      | some v => rfl
      | none =>
        by_cases hvalue : lastPut (gives? s i) front = .null
        · exact hvalue
        · have hnil := List.getLast?_eq_none_iff.1 hrest
          exact absurd ⟨front, rest, rfl, hend, hvalue, hnil⟩ hpassed

end BuilderStep

namespace TupleBuilder

open BuilderStep

variable {b : TupleBuilder} {i pos : Nat} {v : Value}

def step (b : TupleBuilder) : BuilderStep → TupleBuilder
  | .value v => b.value v
  | .skip => b.skip
  | .setNamed name v => b.setNamed name v

def after (b : TupleBuilder) (steps : List BuilderStep) : TupleBuilder := steps.foldl step b

/-- The builder is at a position. Past the last column it does not matter how far. -/
def Reached (b : TupleBuilder) (pos : Nat) : Prop :=
  min b.position b.schema.columns.length = min pos b.schema.columns.length

theorem schema_value (b : TupleBuilder) (v : Value) : (b.value v).schema = b.schema := by
  unfold value
  split <;> rfl

theorem schema_setNamed (b : TupleBuilder) (name : String) (v : Value) :
    (b.setNamed name v).schema = b.schema := by
  unfold setNamed
  split <;> rfl

theorem schema_step (b : TupleBuilder) (st : BuilderStep) : (b.step st).schema = b.schema := by
  cases st with
  | value v => exact b.schema_value v
  | skip => rfl
  | setNamed name v => exact b.schema_setNamed name v

theorem values_value (b : TupleBuilder) (v : Value) :
    (b.value v).values = b.values.set b.position v := by
  unfold value
  split
  · rfl
  · exact (List.set_eq_of_length_le (by omega)).symm

theorem position_value (b : TupleBuilder) (v : Value) :
    (b.value v).position =
      if b.position < b.schema.columns.length then b.position + 1 else b.position := by
  rw [← b.complete]
  unfold value
  split <;> rfl

theorem position_setNamed (b : TupleBuilder) (name : String) (v : Value) :
    (b.setNamed name v).position = b.position := by
  unfold setNamed
  split <;> rfl

theorem Reached.step (h : b.Reached pos) (st : BuilderStep) : (b.step st).Reached (st.next pos) := by
  unfold Reached at h ⊢
  rw [schema_step]
  cases st with
  | value v =>
    have hposition := b.position_value v
    show min (b.value v).position _ = min (pos + 1) _
    rw [hposition]
    split <;> omega
  | skip =>
    show min (b.position + 1) _ = min (pos + 1) _
    omega
  | setNamed name v =>
    show min (b.setNamed name v).position _ = min pos _
    rw [position_setNamed]
    exact h

/-- Before the last column the builder is where the steps have brought it. -/
theorem Reached.position_eq_iff (h : b.Reached pos) (hi : i < b.values.length) :
    b.position = i ↔ pos = i := by
  have hcomplete := b.complete
  unfold Reached at h
  omega

/-- A step puts into a column what it gives it, and leaves it otherwise. -/
theorem values_step (h : b.Reached pos) (hv : b.values[i]? = some v) (st : BuilderStep) :
    (b.step st).values[i]? = some ((st.gives? b.schema i pos).getD v) := by
  have hi : i < b.values.length := (List.getElem?_eq_some_iff.1 hv).1
  cases st with
  | value w =>
    show (b.value w).values[i]? = some ((if pos = i then some w else none).getD v)
    rw [values_value, List.getElem?_set]
    by_cases hp : pos = i
    · rw [if_pos ((h.position_eq_iff hi).2 hp), if_pos (by rwa [(h.position_eq_iff hi).2 hp]),
        if_pos hp]
      rfl
    · rw [if_neg (mt (h.position_eq_iff hi).1 hp), if_neg hp]
      exact hv
  | skip => exact hv
  | setNamed name w =>
    show (b.setNamed name w).values[i]? =
      some ((if b.schema.indexOf? name = some i then some w else none).getD v)
    unfold setNamed
    cases hname : b.schema.indexOf? name with
    | none => exact hv
    | some j =>
      show (b.values.set j w)[i]? = some ((if some j = some i then some w else none).getD v)
      rw [List.getElem?_set]
      by_cases hj : j = i
      · subst hj
        rw [if_pos rfl, if_pos hi, if_pos rfl]
        rfl
      · rw [if_neg hj, if_neg (mt Option.some.inj hj)]
        exact hv

theorem schema_after (b : TupleBuilder) (steps : List BuilderStep) :
    (b.after steps).schema = b.schema := by
  induction steps generalizing b with
  | nil => rfl
  | cons st rest ih => exact (ih (b.step st)).trans (schema_step b st)

/-- After a run of steps a column has the last value that the steps gave it. -/
theorem values_after (h : b.Reached pos) (hv : b.values[i]? = some v) (steps : List BuilderStep) :
    (b.after steps).values[i]? = some ((puts (gives? b.schema i) pos steps).getLast?.getD v) := by
  induction steps generalizing b pos v with
  | nil => exact hv
  | cons st rest ih =>
    have hrest := ih (h.step st) (values_step h hv st)
    rw [schema_step] at hrest
    have hlast : (st.gives? b.schema i pos).toList.getLast? = st.gives? b.schema i pos := by
      cases st.gives? b.schema i pos <;> rfl
    rw [puts, List.getLast?_append, Option.getD_or, hlast]
    exact hrest

/-- A built tuple has one value per column, each the last one that a step gave to the column, and
NULL where none did. If skips were to put NULL where they pass, it would be the same, except for the
columns where a skip passed over the value of a name. -/
theorem built_tuple (s : Schema) (steps : List BuilderStep) :
    ((start s).after steps).build.schema = s ∧
    ((start s).after steps).build.record = none ∧
    ((start s).after steps).build.values =
      (List.range s.columns.length).map (fun i => lastPut (gives? s i) steps) ∧
    ∀ i < s.columns.length,
      (((start s).after steps).build.values[i]? = some (lastPut (means? s i) steps) ↔
        ¬ PassedOver s i steps) := by
  have hschema : ((start s).after steps).schema = s := schema_after _ steps
  have hvalue : ∀ i < s.columns.length,
      ((start s).after steps).values[i]? = some (lastPut (gives? s i) steps) := by
    intro i hi
    have hnull : (start s).values[i]? = some .null := by
      unfold start
      rw [List.getElem?_replicate, if_pos hi]
    have hreached : (start s).Reached 0 := rfl
    exact values_after hreached hnull steps
  refine ⟨hschema, rfl, ?_, ?_⟩
  · have hlen : ((start s).after steps).values.length = s.columns.length := by
      rw [((start s).after steps).complete, hschema]
    refine List.ext_getElem? ?_
    intro i
    by_cases hi : i < s.columns.length
    · rw [List.getElem?_map, List.getElem?_range hi]
      exact hvalue i hi
    · have hout : s.columns.length ≤ i := Nat.le_of_not_lt hi
      have hnone : ((start s).after steps).build.values[i]? = none :=
        List.getElem?_eq_none (Nat.le_trans (Nat.le_of_eq hlen) hout)
      rw [hnone, List.getElem?_map, List.getElem?_eq_none (by rwa [List.length_range])]
      rfl
  · intro i hi
    have hgiven : ((start s).after steps).build.values[i]? = some (lastPut (gives? s i) steps) :=
      hvalue i hi
    rw [hgiven, Option.some.injEq, lastPut_eq_iff]

/-- Three columns, two of them of one name. The second is given a value by its name and is then
passed by a skip; the third is given one by the name that it shares with the first, one at its
position, and a last one by the name again, when the position is past the end. -/
def sharedName : Schema :=
  ⟨[⟨"a", .smallInt, true⟩, ⟨"b", .smallInt, true⟩, ⟨"a", .smallInt, true⟩]⟩

def mixedSteps : List BuilderStep :=
  [.setNamed "b" (.smallInt 1), .value (.smallInt 2), .setNamed "a" (.smallInt 3), .skip,
    .value (.smallInt 4), .value (.smallInt 5), .setNamed "c" (.smallInt 6),
    .setNamed "a" (.smallInt 7)]

theorem mixed_built :
    ((start sharedName).after mixedSteps).build.values = [.smallInt 2, .smallInt 1, .smallInt 7] ∧
    (0 < sharedName.columns.length ∧ ¬ PassedOver sharedName 0 mixedSteps) ∧
    (1 < sharedName.columns.length ∧ PassedOver sharedName 1 mixedSteps) ∧
    (2 < sharedName.columns.length ∧ ¬ PassedOver sharedName 2 mixedSteps) := by
  obtain ⟨_, _, hvalues, hmeant⟩ := built_tuple sharedName mixedSteps
  have hbuilt : ((start sharedName).after mixedSteps).build.values =
      [.smallInt 2, .smallInt 1, .smallInt 7] := hvalues.trans (by decide +kernel)
  rw [hbuilt] at hmeant
  refine ⟨hbuilt, ⟨by decide, ?_⟩, ⟨by decide, ?_⟩, ⟨by decide, ?_⟩⟩
  · exact (hmeant 0 (by decide)).1 (by decide +kernel)
  · exact Classical.not_not.1 (mt (hmeant 1 (by decide)).2 (by decide +kernel))
  · exact (hmeant 2 (by decide)).1 (by decide +kernel)

def oneName : Schema := ⟨[⟨"a", .smallInt, true⟩]⟩

def namedThenSkipped : List BuilderStep := [.setNamed "a" (.smallInt 7), .skip]

/-- A column that a name gave a value keeps it when a skip passes, though the skip came last. -/
theorem named_value_outlives_skip :
    lastPut (means? oneName 0) namedThenSkipped = .null ∧
    ((start oneName).after namedThenSkipped).build.values[0]? = some (.smallInt 7) ∧
    ((start oneName).after namedThenSkipped).build.values[0]? ≠
      some (lastPut (means? oneName 0) namedThenSkipped) := by
  decide +kernel

end TupleBuilder
end PageStore
