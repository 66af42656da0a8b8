import CilWeaver.Image.ModuleImage
import CilWeaver.Proofs.Steps

/-!
Lists of members that are written back to back, and the row of the first member of each list. The
runs between these rows are the lists again.
-/

namespace CilWeaver

/-- The rows of the first members of lists of these lengths, when the first row is `row`. -/
def startsFrom : (row : Nat) → List Nat → List Nat
  | _, [] => []
  | row, length :: lengths => row :: startsFrom (row + length) lengths

theorem startsFrom_append (row : Nat) (front back : List Nat) :
    startsFrom row (front ++ back) = startsFrom row front ++ startsFrom (row + front.sum) back := by
  induction front generalizing row with
  | nil => rfl
  | cons length front ih =>
    rw [List.cons_append, startsFrom, ih, startsFrom, List.cons_append, List.sum_cons, Nat.add_assoc]

namespace Run

/-- The runs of lists of these lengths; the first one starts at `start`. -/
def ofLengths : (start : Nat) → List Nat → List Run
  | _, [] => []
  | start, length :: lengths => ⟨start, start + length⟩ :: ofLengths (start + length) lengths

theorem length_ofLengths (start : Nat) (lengths : List Nat) :
    (ofLengths start lengths).length = lengths.length := by
  induction lengths generalizing start with
  | nil => rfl
  | cons length lengths ih => rw [ofLengths, List.length_cons, ih, List.length_cons]

theorem fromRow_startsFrom (column : ListColumn) (owner : Nat) {start total : Nat} {lengths : List Nat}
    (whole : total = start + lengths.sum) :
    fromRow column total owner (startsFrom (start + 1) lengths) = .ok (ofLengths start lengths) := by
  induction lengths generalizing owner start with
  | nil => rfl
  | cons length lengths ih =>
    rw [List.sum_cons] at whole
    have stop : (startsFrom (start + 1 + length) lengths).head?.getD (total + 1) = start + length + 1 := by
      cases lengths with
      | nil =>
        rw [List.sum_nil] at whole
        rw [startsFrom, List.head?_nil, Option.getD_none]
        omega
      | cons next lengths =>
        rw [startsFrom, List.head?_cons, Option.getD_some]
        omega
    have first : ¬ (start + 1 = 0 ∨ total + 1 < start + 1) := by omega
    have last : ¬ (start + length + 1 < start + 1 ∨ total + 1 < start + length + 1) := by omega
    have next : start + 1 + length = start + length + 1 := by omega
    rw [startsFrom, fromRow, if_neg first]
    simp only [stop, last, ↓reduceIte]
    rw [next, ih (owner + 1) (by omega)]
    rfl

/-- The runs of the owners are those of the lists. -/
theorem ofStarts_startsFrom (column : ListColumn) (lengths : List Nat) :
    ofStarts column lengths.sum (startsFrom 1 lengths) = .ok (ofLengths 0 lengths) :=
  fromRow_startsFrom column 1 (Nat.zero_add _).symm

theorem slice_append {α : Type} (front own back : List α) :
    slice ⟨front.length, front.length + own.length⟩ (front ++ (own ++ back)) = own := by
  rw [slice, length, List.drop_left, Nat.add_sub_cancel_left, List.take_left]

/-- The items of the runs are the lists. -/
theorem map_slice_ofLengths {α : Type} (front : List α) (lists : List (List α)) :
    (ofLengths front.length (lists.map List.length)).map (·.slice (front ++ lists.flatten)) = lists := by
  induction lists generalizing front with
  | nil => rfl
  | cons own lists ih =>
    have others := ih (front ++ own)
    rw [List.length_append, List.append_assoc] at others
    rw [List.map_cons, ofLengths, List.map_cons, List.flatten_cons, slice_append, others]

/-- The items of the run of a list are the list. -/
theorem slice_flatten {α : Type} {lists : List (List α)} {lengths : List Nat} (same : lengths = lists.map List.length)
    {index : Nat} (run : index < (ofLengths 0 lengths).length) (inside : index < lists.length) :
    (ofLengths 0 lengths)[index].slice lists.flatten = lists[index] := by
  subst same
  have whole := List.getElem_of_eq (map_slice_ofLengths [] lists) (by rw [List.length_map]; exact run)
  rwa [List.getElem_map] at whole

theorem map_slice {α β : Type} (f : α → β) (r : Run) (items : List α) :
    (r.slice items).map f = r.slice (items.map f) := by
  rw [slice, slice, List.map_take, List.map_drop]

theorem getElem?_of_slice {α : Type} {r : Run} {items : List α} {index : Nat} {a : α}
    (found : (r.slice items)[index]? = some a) : items[r.start + index]? = some a := by
  rw [slice, List.getElem?_take] at found
  split at found
  · rwa [List.getElem?_drop] at found
  · cases found

/-! Runs that are read -/

variable {column : ListColumn} {runs : List Run}

theorem fromRow_cons_eq_ok {total row start : Nat} {starts : List Nat}
    (h : fromRow column total row (start :: starts) = .ok runs) :
    ∃ others, fromRow column total (row + 1) starts = .ok others ∧ start ≠ 0 ∧
      start ≤ starts.head?.getD (total + 1) ∧ runs = ⟨start - 1, starts.head?.getD (total + 1) - 1⟩ :: others := by
  unfold fromRow at h
  by_cases bad : start = 0 ∨ total + 1 < start
  · rw [if_pos bad] at h
    cases h
  · rw [if_neg bad] at h
    dsimp only at h
    by_cases unordered : starts.head?.getD (total + 1) < start ∨ total + 1 < starts.head?.getD (total + 1)
    · rw [if_pos unordered] at h
      cases h
    · rw [if_neg unordered] at h
      obtain ⟨others, more, last⟩ := Outcome.bind_eq_ok.mp h
      exact ⟨others, more, by omega, by omega, (Outcome.pure_eq_ok.mp last).symm⟩

theorem length_fromRow {total row : Nat} {starts : List Nat} (h : fromRow column total row starts = .ok runs) :
    runs.length = starts.length := by
  induction starts generalizing row runs with
  | nil =>
    cases h
    rfl
  | cons start starts ih =>
    obtain ⟨others, more, -, -, rfl⟩ := fromRow_cons_eq_ok h
    rw [List.length_cons, List.length_cons, ih more]

theorem head_le_of_fromRow {total row : Nat} {starts : List Nat} (h : fromRow column total row starts = .ok runs) :
    starts.head?.getD (total + 1) ≤ total + 1 := by
  cases starts with
  | nil => exact Nat.le_refl _
  | cons start starts =>
    rw [List.head?_cons, Option.getD_some]
    refine Nat.le_of_not_lt fun outside => ?_
    unfold fromRow at h
    rw [if_pos (.inr (by omega))] at h
    cases h

/-- The items of the runs are all items from the first run on. -/
theorem flatMap_slice_fromRow {α : Type} {items : List α} {row start : Nat} {starts : List Nat}
    (h : fromRow column items.length row (start :: starts) = .ok runs) :
    runs.flatMap (·.slice items) = items.drop (start - 1) := by
  induction starts generalizing row start runs with
  | nil =>
    obtain ⟨others, more, -, -, rfl⟩ := fromRow_cons_eq_ok h
    cases more
    rw [List.flatMap_cons, List.flatMap_nil, List.append_nil, slice, length]
    apply List.take_of_length_le
    simp
  | cons next starts ih =>
    obtain ⟨others, more, -, ordered, rfl⟩ := fromRow_cons_eq_ok h
    rw [List.head?_cons, Option.getD_some] at ordered
    have back : (items.drop (start - 1)).drop (next - 1 - (start - 1)) = items.drop (next - 1) := by
      rw [List.drop_drop]
      congr 1
      omega
    rw [List.flatMap_cons, ih more, ← back]
    exact List.take_append_drop ..

/-- No item is in two runs. -/
theorem sublist_flatMap_slice {α : Type} {items : List α} {starts : List Nat}
    (h : ofStarts column items.length starts = .ok runs) : (runs.flatMap (·.slice items)).Sublist items := by
  cases starts with
  | nil =>
    cases h
    exact List.nil_sublist items
  | cons start starts =>
    rw [flatMap_slice_fromRow h]
    exact List.drop_sublist ..

theorem sum_slices_le {α : Type} {items : List α} {starts : List Nat}
    (h : ofStarts column items.length starts = .ok runs) : (runs.map fun r => (r.slice items).length).sum ≤ items.length := by
  have within := (sublist_flatMap_slice h).length_le
  rwa [List.length_flatMap] at within

end Run

end CilWeaver
