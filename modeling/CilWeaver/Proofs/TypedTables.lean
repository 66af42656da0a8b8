import CilWeaver.Proofs.Tables

/-!
Streams of tables whose rows are structures. Tables without rows leave no trace in a stream, and are read as empty.
Whatever rows the tables of an image are given, a stream to which they could be added is read with these row counts
and these rows, at every width that the heaps and the row counts give the columns.
-/

namespace CilWeaver

namespace Layout

variable {counts : List (Table × Nat)}

theorem lookup_eq_none_of_notMem {t : Table} (absent : t ∉ counts.map (·.1)) : counts.lookup t = none := by
  induction counts with
  | nil => rfl
  | cons c counts ih =>
    rw [List.map_cons, List.mem_cons, not_or] at absent
    rw [List.lookup_cons, beq_eq_false_iff_ne.mpr absent.1]
    exact ih absent.2

/-- When no table is listed twice, it does not matter from which end the list is searched. -/
theorem lookup_reverse (distinct : (counts.map (·.1)).Nodup) (t : Table) :
    counts.reverse.lookup t = counts.lookup t := by
  induction counts with
  | nil => rfl
  | cons c counts ih =>
    rw [List.map_cons, List.nodup_cons] at distinct
    rw [List.reverse_cons, List.lookup_append, ih distinct.2, List.lookup_cons]
    cases same : t == c.1 with
    | true =>
      have absent : counts.lookup t = none := lookup_eq_none_of_notMem (beq_iff_eq.mp same ▸ distinct.1)
      rw [absent, List.lookup_cons, same]
      rfl
    | false =>
      rw [List.lookup_cons, same]
      exact Option.or_none

/-- Tables without rows can be left out. -/
theorem lookup_filter (distinct : (counts.map (·.1)).Nodup) (t : Table) :
    ((counts.filter fun c => 0 < c.2).lookup t).getD 0 = (counts.lookup t).getD 0 := by
  induction counts with
  | nil => rfl
  | cons c counts ih =>
    rw [List.map_cons, List.nodup_cons] at distinct
    have rest := ih distinct.2
    rw [List.filter_cons]
    by_cases filled : 0 < c.2
    · rw [if_pos (by simpa using filled), List.lookup_cons, List.lookup_cons]
      cases t == c.1 with
      | true => rfl
      | false => exact rest
    · rw [if_neg (by simpa using filled), rest, List.lookup_cons]
      cases same : t == c.1 with
      | true =>
        have absent : counts.lookup t = none := lookup_eq_none_of_notMem (beq_iff_eq.mp same ▸ distinct.1)
        have zero : c.2 = 0 := by omega
        rw [absent, zero]
        rfl
      | false => rfl

theorem rows_ofCounts (distinct : (counts.map (·.1)).Nodup) (sizes : UInt8) (t : Table) :
    (ofCounts counts sizes).rows t = (counts.lookup t).getD 0 := by
  change (counts.reverse.lookup t).getD 0 = _
  rw [lookup_reverse distinct]

/-- The layout of tables without their empty ones. -/
theorem ofCounts_filter (distinct : (counts.map (·.1)).Nodup) (sizes : UInt8) :
    ofCounts (counts.filter fun c => 0 < c.2) sizes = ofCounts counts sizes := by
  have some : ((counts.filter fun c => 0 < c.2).map (·.1)).Nodup :=
    distinct.sublist (List.filter_sublist.map _)
  have rows : (ofCounts (counts.filter fun c => 0 < c.2) sizes).rows = (ofCounts counts sizes).rows := by
    funext t
    rw [rows_ofCounts some, rows_ofCounts distinct, lookup_filter distinct]
  unfold ofCounts at rows ⊢
  rw [Layout.mk.injEq]
  exact ⟨rows, rfl⟩

end Layout

theorem TableRow.ofValues_map_toValues {ρ : Type} [TableRow ρ] (rows : List ρ) :
    (rows.map toValues).map ofValues = rows := by
  rw [List.map_map]
  exact (List.map_congr_left fun row _ => ofValues_toValues row).trans (List.map_id' rows)

namespace TableRows

/-- The rows of a table, given as structures. -/
def of {ρ : Type} [TableRow ρ] (rows : List ρ) : TableRows := ⟨TableRow.table ρ, rows.map TableRow.toValues⟩

/-- The tables that have rows. -/
def filled (tables : List TableRows) : List TableRows := tables.filter fun d => !d.2.isEmpty

theorem mem_of_filled {tables : List TableRows} {d : TableRows} (h : d ∈ filled tables) : d ∈ tables :=
  (List.mem_filter.mp h).1

/-- The numbers of rows of some tables. -/
def counts (tables : List TableRows) : List (Table × Nat) := tables.map fun d => (d.1, d.count)

theorem counts_filled (tables : List TableRows) :
    counts (filled tables) = (counts tables).filter fun c => 0 < c.2 := by
  unfold counts filled
  rw [List.filter_map]
  congr 1
  refine List.filter_congr fun d _ => ?_
  obtain ⟨t, rows⟩ := d
  cases rows <;> rfl

theorem tables_counts (tables : List TableRows) : (counts tables).map (·.1) = tables.map (·.1) := by
  rw [counts, List.map_map]
  rfl

end TableRows

namespace TableStreamBuilder

open TableRows Step

/-- Tables are added one after the other. -/
theorem addAll_ok {tables before : List TableRows} {b b' : TableStreamBuilder} (h : b.Contains before)
    (run : (tables.forM fun d => addValues d.1 d.2) b = .ok () b') :
    b'.layout = b.layout ∧ b'.Contains (before ++ filled tables) := by
  induction tables generalizing b before with
  | nil =>
    obtain ⟨-, rfl⟩ := pure_eq_ok.mp run
    exact ⟨rfl, (List.append_nil before).symm ▸ h⟩
  | cons d tables ih =>
    rw [List.forM] at run
    obtain ⟨⟨⟩, middle, first, others⟩ := bind_eq_ok.mp run
    obtain ⟨layout, contains⟩ := addValues_ok h first
    obtain ⟨last, all⟩ := ih contains others
    rw [List.append_assoc, filled, ← List.filter_append] at all
    exact ⟨last.trans layout, all⟩

end TableStreamBuilder

namespace TableStream

open TableRows TableStreamBuilder

/-- Each table is read as its rows, those without rows too. -/
theorem values_filled {b : TableStreamBuilder} {tables : List TableRows} (h : b.Contains (filled tables))
    (distinct : (tables.map (·.1)).Nodup) {d : TableRows} (member : d ∈ tables) :
    (ofBuilder b (filled tables)).values d.1 = .ok d.stored := by
  by_cases empty : d.2 = []
  · have absent : ∀ e ∈ filled tables, e.1 ≠ d.1 := by
      intro e inside same
      obtain ⟨listed, nonempty⟩ := List.mem_filter.mp inside
      obtain rfl : e = d := List.inj_on_of_nodup_map distinct listed member same
      rw [empty] at nonempty
      cases nonempty
    rw [values_ofBuilder_absent absent, TableRows.stored, empty, List.map_nil]
  · exact values_ofBuilder h (List.mem_filter.mpr ⟨member, by simpa using empty⟩)

/-- The rows of each table are read as the structures they were made from. -/
theorem rows_ofBuilder {ρ : Type} [TableRow ρ] {rows : List ρ} {b : TableStreamBuilder} {tables : List TableRows}
    (h : b.Contains (filled tables)) (good : ∀ d ∈ tables, d.Good) (distinct : (tables.map (·.1)).Nodup)
    (member : of rows ∈ tables) : (ofBuilder b (filled tables)).rows ρ = .ok rows := by
  have values : (ofBuilder b (filled tables)).values (TableRow.table ρ) = .ok (rows.map TableRow.toValues) := by
    have found := values_filled h distinct member
    rwa [stored_eq fun row inside => Values.stored_of_small ((good _ member).small row inside)] at found
  rw [TableStream.rows, values]
  exact congrArg Except.ok (TableRow.ofValues_map_toValues rows)

end TableStream

/-! Streams as a whole -/

/-- A list of rows for every table. -/
abbrev RowLists := (t : Table) → List (Values t.columns)

namespace RowLists

open TableRows

variable {rows : RowLists} {tables : List Table}

/-- The lists of some tables. -/
def ofTables (rows : RowLists) (tables : List Table) : List TableRows := tables.map fun t => ⟨t, rows t⟩

theorem mem_ofTables {d : TableRows} : d ∈ rows.ofTables tables ↔ d.1 ∈ tables ∧ d.2 = rows d.1 := by
  constructor
  · intro member
    obtain ⟨t, inside, rfl⟩ := List.mem_map.mp member
    exact ⟨inside, rfl⟩
  · rintro ⟨inside, items⟩
    exact List.mem_map.mpr ⟨d.1, inside, by rw [← items]⟩

theorem tables_ofTables (rows : RowLists) (tables : List Table) : (rows.ofTables tables).map (·.1) = tables := by
  rw [ofTables, List.map_map]
  exact List.map_id' tables

theorem tables_counts_ofTables (rows : RowLists) (tables : List Table) :
    (counts (rows.ofTables tables)).map (·.1) = tables := by rw [tables_counts, tables_ofTables]

/-- The layout for the rows of these tables. -/
def layout (rows : RowLists) (tables : List Table) (heapSizes : UInt8) : Layout :=
  .ofCounts (counts (rows.ofTables tables)) heapSizes

theorem rows_layout (distinct : tables.Nodup) (heapSizes : UInt8) (t : Table) :
    (rows.layout tables heapSizes).rows t = if t ∈ tables then (rows t).length else 0 := by
  rw [layout, Layout.rows_ofCounts (by rwa [tables_counts_ofTables])]
  by_cases member : t ∈ tables
  · have entry : (counts (rows.ofTables tables)).lookup t = some (rows t).length := by
      rw [counts, ofTables, List.map_map]
      exact List.lookup_graph (fun t => (rows t).length) member
    rw [entry, if_pos member, Option.getD_some]
  · rw [Layout.lookup_eq_none_of_notMem (by rwa [tables_counts_ofTables]), if_neg member, Option.getD_none]

/-- Tables without rows can be added as well as left out. -/
theorem filled_filled (tables : List TableRows) : filled (filled tables) = filled tables := by
  simp only [filled, List.filter_filter, Bool.and_self]

variable {heapSizes : UInt8} {b : TableStreamBuilder}

theorem added_ok (added : ((filled (rows.ofTables tables)).forM fun d => TableStreamBuilder.addValues d.1 d.2)
    { layout := rows.layout tables heapSizes } = .ok () b) :
    b.layout = rows.layout tables heapSizes ∧ b.Contains (filled (rows.ofTables tables)) := by
  have both := TableStreamBuilder.addAll_ok (TableStreamBuilder.contains_nil _) added
  rwa [filled_filled] at both

/-- The tables of an image have columns, and none is there twice. -/
structure Storable (tables : List Table) : Prop where
  columns : ∀ t ∈ tables, t.columns ≠ []
  distinct : tables.Nodup

theorem storable_of_image (image : tables = Table.ofModule ∨ tables = Table.ofSymbols) : Storable tables := by
  rcases image with rfl | rfl
  · exact ⟨by decide, by decide⟩
  · exact ⟨by decide, by decide⟩

variable (storable : Storable tables)

include storable

theorem parse_added (few : ∀ t ∈ tables, (rows t).length ≤ maxRows)
    (added : ((filled (rows.ofTables tables)).forM fun d => TableStreamBuilder.addValues d.1 d.2)
      { layout := rows.layout tables heapSizes } = .ok () b) :
    TableStream.parse tables b.build = .ok (.ofBuilder b (filled (rows.ofTables tables))) := by
  obtain ⟨layout, contains⟩ := added_ok added
  have inside : ∀ d ∈ filled (rows.ofTables tables), d.1 ∈ tables ∧ d.2 = rows d.1 := fun d member =>
    mem_ofTables.mp (mem_of_filled member)
  refine TableStream.parse_build contains (fun d member => storable.columns d.1 (inside d member).1)
    (fun d member => (inside d member).1) (fun d member => ?_) ?_
  · obtain ⟨allowed, items⟩ := inside d member
    rw [count, items]
    exact few d.1 allowed
  · have distinct : ((counts (rows.ofTables tables)).map (·.1)).Nodup := by
      rw [tables_counts_ofTables]
      exact storable.distinct
    change Layout.ofCounts (counts (filled (rows.ofTables tables))) _ = _
    rw [layout, counts_filled, Layout.ofCounts_filter distinct]
    rfl

variable (whole : ∀ t ∈ tables, ∀ row ∈ rows t, Values.stored t.columns row = row)
  (contains : b.Contains (filled (rows.ofTables tables)))

include whole contains

/-- A table is read as its rows, and as none when the image does not have it. -/
theorem values_added (t : Table) :
    (TableStream.ofBuilder b (filled (rows.ofTables tables))).values t = .ok (if t ∈ tables then rows t else []) := by
  by_cases listed : t ∈ tables
  · have distinct : ((rows.ofTables tables).map (·.1)).Nodup := by
      rw [tables_ofTables]
      exact storable.distinct
    have member : (⟨t, rows t⟩ : TableRows) ∈ rows.ofTables tables := mem_ofTables.mpr ⟨listed, rfl⟩
    have found := TableStream.values_filled contains distinct member
    rw [stored_eq (whole t listed)] at found
    rw [if_pos listed]
    exact found
  · have absent : ∀ d ∈ filled (rows.ofTables tables), d.1 ≠ t := by
      rintro d member rfl
      exact listed (mem_ofTables.mp (mem_of_filled member)).1
    rw [if_neg listed, TableStream.values_ofBuilder_absent absent]

theorem rows_added {ρ : Type} [TableRow ρ] {items : List ρ} (typed : rows (TableRow.table ρ) = items.map TableRow.toValues) :
    (TableStream.ofBuilder b (filled (rows.ofTables tables))).rows ρ =
      .ok (if TableRow.table ρ ∈ tables then items else []) := by
  rw [TableStream.rows, values_added storable whole contains, typed]
  by_cases listed : TableRow.table ρ ∈ tables
  · rw [if_pos listed, if_pos listed]
    exact congrArg Except.ok (TableRow.ofValues_map_toValues items)
  · rw [if_neg listed, if_neg listed]
    rfl

omit storable whole contains

/-- Whatever rows the tables of an image have, a stream to which they could be added is read with their
    counts and with the rows themselves, as values and as structures. -/
theorem parse_undoes_add (image : tables = Table.ofModule ∨ tables = Table.ofSymbols)
    (few : ∀ t ∈ tables, (rows t).length ≤ maxRows)
    (small : ∀ t ∈ tables, ∀ row ∈ rows t, Values.Small t.columns row)
    (added : ((filled (rows.ofTables tables)).forM fun d => TableStreamBuilder.addValues d.1 d.2)
      { layout := .ofCounts (counts (rows.ofTables tables)) heapSizes } = .ok () b) :
    ∃ s, TableStream.parse tables b.build = .ok s ∧ s.layout.heapSizes = heapSizes ∧
      (∀ t, s.layout.rows t = if t ∈ tables then (rows t).length else 0) ∧
      (∀ t, s.values t = .ok (if t ∈ tables then rows t else [])) ∧
      ∀ (ρ : Type) [TableRow ρ] (items : List ρ), rows (TableRow.table ρ) = items.map TableRow.toValues →
        s.rows ρ = .ok (if TableRow.table ρ ∈ tables then items else []) := by
  have storable := storable_of_image image
  have whole : ∀ t ∈ tables, ∀ row ∈ rows t, Values.stored t.columns row = row := fun t listed row member =>
    Values.stored_of_small (small t listed row member)
  obtain ⟨layout, contains⟩ := added_ok added
  refine ⟨_, parse_added storable few added, congrArg Layout.heapSizes layout, fun t => ?_,
    values_added storable whole contains, fun ρ _ items => rows_added storable whole contains⟩
  rw [← rows_layout storable.distinct heapSizes t, ← layout]
  rfl

/-- A module with one reference to a type, whose names need wide indices. -/
def sample : RowLists
  | .module => [TableRow.toValues (⟨0, 1, 1, 0, 0⟩ : ModuleRow)]
  | .typeRef => [TableRow.toValues (⟨⟨.assemblyRef, 1⟩, 0x10000, 0⟩ : TypeRefRow)]
  | _ => []

theorem small_sample (t : Table) : ∀ row ∈ sample t, Values.Small t.columns row := by
  intro row member
  cases t with
  | module =>
    cases List.mem_singleton.mp member
    exact ⟨trivial, trivial, trivial, trivial, trivial, trivial⟩
  | typeRef =>
    cases List.mem_singleton.mp member
    exact ⟨(by decide : 1 < 2 ^ 24), trivial, trivial, trivial⟩
  | _ => exact absurd member List.not_mem_nil

theorem parse_undoes_add_sample : ∃ b s,
    ((filled (sample.ofTables Table.ofModule)).forM fun d => TableStreamBuilder.addValues d.1 d.2)
        { layout := .ofCounts (counts (sample.ofTables Table.ofModule)) Layout.largeStrings } = .ok () b ∧
      TableStream.parse Table.ofModule b.build = .ok s ∧ s.rows TypeRefRow = .ok [⟨⟨.assemblyRef, 1⟩, 0x10000, 0⟩] := by
  obtain ⟨s, read, -, -, -, typed⟩ :=
    @parse_undoes_add sample Table.ofModule Layout.largeStrings _ (.inl rfl)
      (by decide) (fun t _ => small_sample t) rfl
  exact ⟨_, s, rfl, read, typed TypeRefRow [⟨⟨.assemblyRef, 1⟩, 0x10000, 0⟩] rfl⟩

end RowLists

end CilWeaver
