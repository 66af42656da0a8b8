import CilWeaver.Proofs.OwnedRows
import CilWeaver.Proofs.WritableTables

/-!
Rows that were read can be written again. A column that was read takes its value with the same layout, so that
references have candidate tables and the first rows of lists fit their columns.
-/

namespace CilWeaver

open Step Reader

namespace Reader

theorem Answers.timesFrom_all {α : Type} {r : Reader α} {p : α → Prop} (each : r.Answers p) {done : List α}
    (before : ∀ a ∈ done, p a) (count : Nat) : Answers (Reader.timesFrom r done count) fun found => ∀ a ∈ found, p a := by
  induction count generalizing done with
  | zero => exact .pure fun a member => before a (List.mem_reverse.mp member)
  | succ count ih => exact .bind_of each fun a first => ih (List.forall_mem_cons.mpr ⟨first, before⟩)

theorem answers_take (count : Nat) : Answers (take count) fun bytes => bytes.length = count := by
  intro c bytes c' run
  unfold take at run
  by_cases enough : (c.rest.take count).length = count
  · simp only [enough, ↓reduceIte] at run
    cases run
    exact enough
  · simp only [enough, ↓reduceIte] at run
    cases run

theorem answers_column (wide : Bool) : Answers (Reader.column wide) fun n => n < 256 ^ columnWidth wide := by
  unfold Reader.column
  refine .bind_of (answers_take _) fun bytes length => .pure ?_
  have bound := leNat_lt bytes
  rwa [length] at bound

end Reader

namespace CodedIndex

theorem ofToken_token {kind : CodedKind} {index : CodedIndex} (candidate : index.table ∈ kind.tables) :
    ∃ found, ofToken kind index.token = .ok found := by
  unfold ofToken token
  rw [Token.tableNumber_ofRow]
  cases named : kind.tables.find? (·.number == index.table.number) with
  | some table => exact ⟨_, rfl⟩
  | none =>
    have other := List.find?_eq_none.mp named index.table candidate
    exact absurd (beq_self_eq_true _) other

/-- A number that was read is not larger than the one that is written for its row. -/
theorem encode_of_decode {kind : CodedKind} {n : Nat} {index : CodedIndex} (h : decode kind n = .ok index) :
    ∃ k, index.encode kind = .ok k ∧ k ≤ n := by
  unfold decode at h
  cases found : kind.tables[n % 2 ^ kind.tagBits]? with
  | none =>
    simp only [found] at h
    cases h
  | some table =>
    simp only [found] at h
    cases h
    obtain ⟨bound, same⟩ := List.getElem?_eq_some_iff.mp found
    have candidate : table ∈ kind.tables := same ▸ List.getElem_mem bound
    obtain ⟨tag, known⟩ := Option.isSome_iff_exists.mp (List.isSome_idxOf?.mpr candidate)
    obtain ⟨inside, -, first⟩ := List.idxOf?_eq_some_iff.mp known
    have tagLe : tag ≤ n % 2 ^ kind.tagBits := by
      by_contra later
      have other := first (n % 2 ^ kind.tagBits) (by omega)
      exact other same
    refine ⟨_, by unfold encode; rw [known], Nat.le_trans (Nat.mod_le _ _) ?_⟩
    have whole := Nat.div_add_mod' n (2 ^ kind.tagBits)
    change n / 2 ^ kind.tagBits * 2 ^ kind.tagBits + tag ≤ n
    omega

/-- A number of 32 bits has no row that 32 bits cannot hold. -/
theorem stored_of_decode {kind : CodedKind} {n : Nat} {index : CodedIndex} (small : n < 2 ^ 32)
    (h : decode kind n = .ok index) : index.stored kind = index := by
  unfold decode at h
  cases found : kind.tables[n % 2 ^ kind.tagBits]? with
  | none =>
    simp only [found] at h
    cases h
  | some table =>
    simp only [found] at h
    cases h
    have split : 2 ^ 32 = 2 ^ (32 - kind.tagBits) * 2 ^ kind.tagBits := by cases kind <;> rfl
    rw [split] at small
    exact stored_of_lt (Nat.div_lt_of_lt_mul (Nat.mul_comm _ _ ▸ small))

theorem mem_tables_of_encode {kind : CodedKind} {index : CodedIndex} {k : Nat} (h : index.encode kind = .ok k) :
    index.table ∈ kind.tables := by
  unfold encode at h
  cases known : kind.tables.idxOf? index.table with
  | none =>
    rw [known] at h
    cases h
  | some tag => exact List.isSome_idxOf?.mp (by rw [known]; rfl)

end CodedIndex

namespace Layout

variable {l : Layout}

theorem lt_of_column {wide : Bool} {n : Nat} {bytes : Bytes} (h : column wide n = .ok bytes) : n < 256 ^ columnWidth wide := by
  unfold column at h
  by_cases fits : n < 256 ^ columnWidth wide
  · exact fits
  · rw [if_neg fits] at h
    cases h

theorem answers_readColumn (c : Column) : Answers (l.readColumn c) fun v => ∃ bytes, l.writeColumn c v = .ok bytes := by
  have number : ∀ wide, Answers (Reader.column wide) fun n => ∃ bytes, CilWeaver.column wide n = .ok bytes :=
    fun wide c n c' run => ⟨_, if_pos (answers_column wide c n c' run)⟩
  cases c with
  | word => exact fun _ _ _ _ => ⟨_, rfl⟩
  | double => exact fun _ _ _ _ => ⟨_, rfl⟩
  | string => exact number _
  | guid => exact number _
  | blob => exact number _
  | row t => exact number _
  | coded kind =>
    unfold readColumn
    refine .bind_of (answers_column _) fun n small => ?_
    cases decoded : CodedIndex.decode kind n with
    | error e => exact fun c index c' run => absurd run throw_ne_ok
    | ok index =>
      obtain ⟨k, encoded, below⟩ := CodedIndex.encode_of_decode decoded
      exact .pure ⟨_, Outcome.bind_eq_ok.mpr ⟨k, encoded, if_pos (Nat.lt_of_le_of_lt below small)⟩⟩

theorem column_bound (wide : Bool) : 256 ^ columnWidth wide ≤ 2 ^ 32 := by cases wide <;> decide

/-- Nothing of a value that was read is lost when it is written. -/
theorem answers_readColumn_stored (c : Column) : Answers (l.readColumn c) fun v => c.stored v = v := by
  cases c with
  | coded kind =>
    unfold readColumn
    refine .bind_of (answers_column _) fun n small => ?_
    cases decoded : CodedIndex.decode kind n with
    | error e => exact fun c index c' run => absurd run throw_ne_ok
    | ok index => exact .pure (CodedIndex.stored_of_decode (Nat.lt_of_lt_of_le small (column_bound _)) decoded)
  | _ => exact fun _ _ _ _ => rfl

theorem answers_readValues_stored (cs : List Column) : Answers (l.readValues cs) fun vs => Values.stored cs vs = vs := by
  induction cs with
  | nil => exact .pure rfl
  | cons c cs ih =>
    unfold readValues
    exact .bind_of (answers_readColumn_stored c) fun v first => .bind_of ih fun vs others => .pure (Prod.ext first others)

/-- A row that was read can be written with the same layout. -/
theorem answers_readValues (cs : List Column) : Answers (l.readValues cs) (l.Takes cs) := by
  induction cs with
  | nil => exact .pure trivial
  | cons c cs ih =>
    unfold readValues
    exact .bind_of (answers_readColumn c) fun v first => .bind_of ih fun vs others => .pure ⟨first, others⟩

end Layout

/-- The rows can be written with the layout. -/
def Layout.TakesAll {ρ : Type} [TableRow ρ] (l : Layout) (rows : List ρ) : Prop :=
  ∀ row ∈ rows, l.Takes _ (TableRow.toValues row)

/-- What is true of each row that a reader answers is true of all rows of a table. -/
theorem TableStream.answers_rows {s : TableStream} {ρ : Type} [TableRow ρ] {p : Values (TableRow.table ρ).columns → Prop}
    (each : Answers (s.layout.readValues (TableRow.table ρ).columns) p) :
    Outcome.Answers (s.rows ρ) fun rows => ∀ row ∈ rows, p (TableRow.toValues row) := by
  intro rows h
  obtain ⟨all, values, rfl⟩ := Outcome.map_eq_ok.mp h
  intro row member
  obtain ⟨vs, inside, rfl⟩ := List.mem_map.mp member
  rw [TableRow.toValues_ofValues]
  unfold TableStream.values at values
  cases listed : s.places.find? (·.table == TableRow.table ρ) with
  | none =>
    simp only [listed] at values
    cases values
    cases inside
  | some place =>
    simp only [listed] at values
    have all := Answers.timesFrom_all each (fun _ impossible => absurd impossible List.not_mem_nil) place.rows
    exact all.parse values vs inside

namespace ModuleImage

/-- The rows of an image can be written with its layout. -/
structure Stored (image : ModuleImage) : Prop where
  typeRefs : image.layout.TakesAll image.typeRefs
  typeDefs : image.layout.TakesAll image.typeDefs
  methods : image.layout.TakesAll image.methods
  memberRefs : image.layout.TakesAll image.memberRefs

theorem stored_of_parse (data : Bytes) : Outcome.Answers (parse data) Stored := by
  intro image h
  obtain ⟨-, s, -, tabled⟩ := tabled_of_parse data image h
  have takes : ∀ (ρ : Type) [TableRow ρ], Outcome.Answers (s.rows ρ) fun rows => image.layout.TakesAll rows := by
    intro ρ _
    rw [tabled.layout]
    exact TableStream.answers_rows (s.layout.answers_readValues _)
  exact ⟨takes _ _ tabled.typeRefs, takes _ _ tabled.typeDefs, takes _ _ tabled.methods, takes _ _ tabled.memberRefs⟩

variable {image : ModuleImage}

/-- A start that was read, of a list in the rows of a table. -/
theorem start_of_takes {t : Table} {start : Nat} (taken : ∃ bytes, image.layout.writeColumn (.row t) start = .ok bytes) :
    start < 2 ^ 32 ∧ (image.layout.rows t ≤ 0xFFFF → start < 2 ^ 16) := by
  obtain ⟨bytes, written⟩ := taken
  have bound := Layout.lt_of_column written
  refine ⟨?_, fun few => ?_⟩
  · cases wide : image.layout.wideRows t with
    | true => rwa [wide] at bound
    | false =>
      rw [wide] at bound
      exact Nat.lt_trans bound (by decide)
  · have narrow : image.layout.wideRows t = false := decide_eq_false (Nat.not_lt.mpr few)
    rwa [narrow] at bound

end ModuleImage

namespace Run

variable {column : ListColumn} {starts : List Nat} {runs : List Run}

theorem startsFrom_of_fromRow {α : Type} {items : List α} {row start : Nat}
    (h : fromRow column items.length row (start :: starts) = .ok runs) :
    start :: starts = startsFrom start (runs.map fun r => (r.slice items).length) := by
  induction starts generalizing row start runs with
  | nil =>
    obtain ⟨others, more, -, -, rfl⟩ := fromRow_cons_eq_ok h
    cases more
    rfl
  | cons next starts ih =>
    obtain ⟨others, more, positive, ordered, rfl⟩ := fromRow_cons_eq_ok h
    have inside := head_le_of_fromRow more
    rw [List.head?_cons, Option.getD_some] at ordered inside
    have length : (slice ⟨start - 1, next - 1⟩ items).length = next - start := by
      rw [slice, Run.length, List.length_take, List.length_drop]
      change min (next - 1 - (start - 1)) (items.length - (start - 1)) = _
      omega
    have follows : start + (next - start) = next := by omega
    rw [List.head?_cons, Option.getD_some, List.map_cons, startsFrom, length, follows, ← ih more]

/-- Lists that start at the first row start where lists of their lengths are written. -/
theorem startsFrom_of_fromFirst {α : Type} {items : List α} (h : ofStarts column items.length starts = .ok runs)
    (first : FromFirst starts items.length) : starts = startsFrom 1 (runs.map fun r => (r.slice items).length) := by
  cases starts with
  | nil =>
    cases h
    rfl
  | cons start starts =>
    have one : start = 1 := first
    rw [← one]
    exact startsFrom_of_fromRow h

theorem startsFit {α : Type} {items : List α} (h : ofStarts column items.length starts = .ok runs)
    (first : FromFirst starts items.length)
    (small : ∀ start ∈ starts, start < 2 ^ 32 ∧ (items.length ≤ 0xFFFF → start < 2 ^ 16)) :
    StartsFit (runs.map fun r => (r.slice items).length) := by
  have all := congrArg List.length (flatMap_slice_of_fromFirst h first)
  rw [List.length_flatMap] at all
  intro start member
  rw [all]
  rw [← startsFrom_of_fromFirst h first] at member
  exact small start member

end Run

namespace ModuleImage

variable {image : ModuleImage} {points? : Option SymbolImage} {maxBodySize : Nat} {runs : MemberRuns} {m : Module}

section

variable (reads : image.ReadsModule points? maxBodySize runs m)

include reads

theorem ReadsModule.fieldLengths :
    m.types.map (·.fields.length) = runs.fields.map fun r => (r.slice image.fields).length := by
  have lengths := map_eq_map reads.types fun item t type => type.fields.length_eq
  rw [← reads.map_zip.1, List.map_map]
  exact lengths.symm

theorem ReadsModule.methodLengths :
    m.types.map (·.methods.length) = runs.methods.map fun r => (r.slice (image.listedMethods runs.params)).length := by
  have lengths := map_eq_map reads.types fun item t type => type.methods.length_eq
  simp only [ownMethods_eq_slice] at lengths
  conv_rhs => rw [← reads.map_zip.2]
  rw [List.map_map]
  exact lengths.symm

theorem ReadsModule.paramLengths
    (methods : List.Forall₂ (fun item d => image.ReadsMethod points? maxBodySize item.2 item.1.1 item.1.2 d)
      (image.listedMethods runs.params) (m.types.flatMap (·.methods))) :
    (m.types.flatMap (·.methods)).map (·.params.length) = runs.params.map fun r => (r.slice image.params).length := by
  have lengths := map_eq_map methods fun item d method => method.params.length_eq
  conv_rhs => rw [← reads.map_listedMethods]
  rw [List.map_map]
  exact lengths.symm

/-- The lists of a module that keeps all rows can be written where they were read. -/
theorem ReadsModule.startsFit {data : Bytes} (parsed : parse data = .ok image) (owned : image.Owned) :
    StartsFit (m.types.map (·.fields.length)) ∧ StartsFit (m.types.map (·.methods.length)) ∧
      StartsFit ((m.types.flatMap (·.methods)).map (·.params.length)) := by
  have stored := stored_of_parse data image parsed
  have numbered := reads.numbered parsed owned
  have listed := length_listedMethods reads
  have first := owned.methods
  rw [← listed] at first
  rw [reads.fieldLengths, reads.methodLengths, reads.paramLengths numbered.methods]
  refine ⟨Run.startsFit reads.fieldRuns owned.fields fun start member => ?_,
    Run.startsFit reads.methodRunsListed first fun start member => ?_,
    Run.startsFit reads.paramRuns owned.params fun start member => ?_⟩
  · obtain ⟨row, inside, rfl⟩ := List.mem_map.mp member
    obtain ⟨-, -, -, -, field, -⟩ := stored.typeDefs row inside
    have small := start_of_takes field
    rwa [counted_of_parse parsed .field] at small
  · obtain ⟨row, inside, rfl⟩ := List.mem_map.mp member
    obtain ⟨-, -, -, -, -, method, -⟩ := stored.typeDefs row inside
    have small := start_of_takes method
    rw [counted_of_parse parsed .methodDef] at small
    rwa [listed]
  · obtain ⟨row, inside, rfl⟩ := List.mem_map.mp member
    obtain ⟨-, -, -, -, -, param, -⟩ := stored.methods row inside
    have small := start_of_takes param
    rwa [counted_of_parse parsed .param] at small

end

end ModuleImage

/-! First rows of lists

Behind the last list there is no row, so a column may need a number that is one above the rows of its table. The width of
the column is chosen for the rows alone: with as many rows as two bytes can name, the number behind them does not fit,
and with any other number of rows it does. -/

theorem mem_startsFrom_bounds {row start : Nat} {lengths : List Nat} (member : start ∈ startsFrom row lengths) :
    row ≤ start ∧ start ≤ row + lengths.sum := by
  induction lengths generalizing row with
  | nil => exact absurd member List.not_mem_nil
  | cons length lengths ih =>
    rw [startsFrom, List.mem_cons] at member
    rw [List.sum_cons]
    rcases member with rfl | later
    · omega
    · have bounds := ih later
      omega

theorem Run.mem_bounds_of_fromRow {column : ListColumn} {total row start : Nat} {starts : List Nat} {runs : List Run}
    (h : fromRow column total row starts = .ok runs) (member : start ∈ starts) : 1 ≤ start ∧ start ≤ total + 1 := by
  induction starts generalizing row runs with
  | nil => exact absurd member List.not_mem_nil
  | cons first starts ih =>
    obtain ⟨others, more, positive, ordered, -⟩ := fromRow_cons_eq_ok h
    rcases List.mem_cons.mp member with rfl | later
    · have inside := head_le_of_fromRow more
      omega
    · exact ih more later

namespace ListColumn

/-- The table whose rows are listed. -/
def items : ListColumn → Table
  | fields => .field
  | methods => .methodDef
  | params => .param

/-- The table with the column. -/
def owner : ListColumn → Table
  | fields => .typeDef
  | methods => .typeDef
  | params => .methodDef

/-- The row with another start in the column. -/
def withStart : (c : ListColumn) → (start : Nat) → Values c.owner.columns → Values c.owner.columns
  | fields, start, (flags, name, namespaceName, baseType, _, firstMethod, ()) =>
    (flags, name, namespaceName, baseType, start, firstMethod, ())
  | methods, start, (flags, name, namespaceName, baseType, firstField, _, ()) =>
    (flags, name, namespaceName, baseType, firstField, start, ())
  | params, start, (address, implFlags, flags, name, signature, _, ()) =>
    (address, implFlags, flags, name, signature, start, ())

/-- The row with this start is written in the size of its table, and what is read from its bytes has the start again. -/
def Keeps (l : Layout) (c : ListColumn) (row : Values c.owner.columns) (start : Nat) : Prop :=
  ∃ bytes, joinPieces (l.writeValues c.owner.columns (c.withStart start row)) = .ok bytes ∧
    l.rowSize? c.owner = some bytes.length ∧
    ∀ position, Reader.Reads (l.readValues c.owner.columns) position bytes
      (c.withStart start (Values.stored c.owner.columns row))

variable {l : Layout} {c : ListColumn} {row : Values c.owner.columns} {start first : Nat}

theorem columns_owner (c : ListColumn) : c.owner.columns ≠ [] := by cases c <;> exact List.cons_ne_nil _ _

theorem stored_withStart (c : ListColumn) (start : Nat) (row : Values c.owner.columns) :
    Values.stored c.owner.columns (c.withStart start row) = c.withStart start (Values.stored c.owner.columns row) := by
  cases c <;> rfl

/-- Rows take other starts independently of what else they hold. -/
theorem takes_withStart (takes : l.Takes c.owner.columns (c.withStart first row)) :
    l.Takes c.owner.columns (c.withStart start row) ↔ ∃ bytes, l.writeColumn (.row c.items) start = .ok bytes := by
  cases c with
  | fields =>
    obtain ⟨flags, name, namespaceName, baseType, -, method⟩ := takes
    exact ⟨fun ⟨_, _, _, _, field, _⟩ => field, fun field => ⟨flags, name, namespaceName, baseType, field, method⟩⟩
  | methods =>
    obtain ⟨flags, name, namespaceName, baseType, field, -, last⟩ := takes
    exact ⟨fun ⟨_, _, _, _, _, method, _⟩ => method, fun method => ⟨flags, name, namespaceName, baseType, field, method, last⟩⟩
  | params =>
    obtain ⟨address, implFlags, flags, name, signature, -, last⟩ := takes
    exact ⟨fun ⟨_, _, _, _, _, param, _⟩ => param, fun param => ⟨address, implFlags, flags, name, signature, param, last⟩⟩

theorem keeps_iff_takes : c.Keeps l row start ↔ l.Takes c.owner.columns (c.withStart start row) := by
  constructor
  · rintro ⟨bytes, written, -⟩
    obtain ⟨pieces, all, -⟩ := joinPieces_eq_ok.mp written
    exact Layout.takes_of_pieces all
  · intro takes
    obtain ⟨bytes, written⟩ := (Layout.joinPieces_fails takes.tries.pieces).exists_ok
    obtain ⟨pieces, all, rfl⟩ := joinPieces_eq_ok.mp written
    refine ⟨pieces.flatten, written, ?_, fun position => ?_⟩
    · rw [TableRows.rowSize?_eq c.columns_owner, Layout.length_writeValues all]
    · rw [← stored_withStart]
      exact Layout.reads_readValues all position

/-- A start within the rows or right behind them fits the column, but for the one that is just too large. -/
theorem exists_column_iff {t : Table} (few : l.rows t ≤ maxRows) (within : start ≤ l.rows t + 1) :
    (∃ bytes, l.writeColumn (.row t) start = .ok bytes) ↔ ¬ (l.rows t = 0xFFFF ∧ start = 0x10000) := by
  constructor
  · rintro ⟨bytes, written⟩ ⟨rows, rfl⟩
    have bound := Layout.lt_of_column written
    have narrow : l.wideRows t = false := decide_eq_false (by omega)
    rw [narrow] at bound
    exact absurd bound (by decide)
  · intro other
    unfold maxRows at few
    refine Layout.exists_column (fun narrow => ?_) (by omega)
    rw [Layout.wideRows, decide_eq_false_iff_not] at narrow
    omega

/-- The starts from one up to the number behind the rows are those that reading a list accepts, and those that writing
    lists of that many rows needs. A row that can be written at all keeps each of them, except for the number behind
    65535 rows. -/
theorem starts_kept (l : Layout) (c : ListColumn) (few : l.rows c.items ≤ maxRows) (start : Nat) :
    (1 ≤ start ∧ start ≤ l.rows c.items + 1 ↔
      ∃ starts runs, start ∈ starts ∧ Run.ofStarts c (l.rows c.items) starts = .ok runs) ∧
    (1 ≤ start ∧ start ≤ l.rows c.items + 1 ↔
      ∃ lengths, lengths.sum = l.rows c.items ∧ start ∈ startsFrom 1 lengths) ∧
    ∀ row, l.Takes c.owner.columns (c.withStart 1 row) → 1 ≤ start → start ≤ l.rows c.items + 1 →
      (c.Keeps l row start ↔ ¬ (l.rows c.items = 0xFFFF ∧ start = 0x10000)) := by
  have needed : 1 ≤ start ∧ start ≤ l.rows c.items + 1 →
      ∃ lengths, lengths.sum = l.rows c.items ∧ start ∈ startsFrom 1 lengths := by
    rintro ⟨positive, within⟩
    have second : 1 + (start - 1) = start := by omega
    refine ⟨[start - 1, l.rows c.items + 1 - start], ?_, ?_⟩
    · simp only [List.sum_cons, List.sum_nil]
      omega
    · rw [startsFrom, startsFrom, second]
      exact List.mem_cons_of_mem _ List.mem_cons_self
  refine ⟨⟨fun within => ?_, ?_⟩, ⟨needed, ?_⟩, fun row takes _ within => ?_⟩
  · obtain ⟨lengths, total, member⟩ := needed within
    exact ⟨_, _, member, total ▸ Run.ofStarts_startsFrom c lengths⟩
  · rintro ⟨starts, runs, member, accepted⟩
    exact Run.mem_bounds_of_fromRow accepted member
  · rintro ⟨lengths, total, member⟩
    have bounds := mem_startsFrom_bounds member
    omega
  · rw [keeps_iff_takes, takes_withStart takes, exists_column_iff few within]

/-- A type without fields and methods. -/
def emptyType : Values Table.typeDef.columns := TableRow.toValues (⟨0, 0, 0, ⟨.typeDef, 0⟩, 1, 1⟩ : TypeDefRow)

theorem takes_emptyType (count : Nat) :
    (Layout.ofCounts [(.field, count)] 0).Takes Table.typeDef.columns (fields.withStart 1 emptyType) := by
  have zero : ∀ wide, ∃ bytes, column wide 0 = .ok bytes := fun wide => Layout.exists_column_small wide (by decide)
  have one : ∀ wide, ∃ bytes, column wide 1 = .ok bytes := fun wide => Layout.exists_column_small wide (by decide)
  exact ⟨⟨_, rfl⟩, zero _, zero _, Layout.exists_coded (by decide) (Nat.zero_le _), one _, one _, trivial⟩

/-- On both sides of 65535 fields there is room for the number behind the last one. -/
theorem starts_kept_beside : fields.Keeps (.ofCounts [(.field, 0xFFFE)] 0) emptyType 0xFFFF ∧
    fields.Keeps (.ofCounts [(.field, 0x10000)] 0) emptyType 0x10001 := by
  have below := (starts_kept (.ofCounts [(.field, 0xFFFE)] 0) fields (by decide) 0xFFFF).2.2 emptyType
  have above := (starts_kept (.ofCounts [(.field, 0x10000)] 0) fields (by decide) 0x10001).2.2 emptyType
  exact ⟨(below (takes_emptyType _) (by decide) (by decide)).mpr (by decide),
    (above (takes_emptyType _) (by decide) (by decide)).mpr (by decide)⟩

/-- The start behind 65535 fields is accepted where lists are read, and cannot be written. -/
theorem start_not_kept : (Layout.ofCounts [(.field, 0xFFFF)] 0).rows .field = 0xFFFF ∧
    Run.ofStarts fields 0xFFFF [1, 0x10000] = .ok [⟨0, 0xFFFF⟩, ⟨0xFFFF, 0xFFFF⟩] ∧
    joinPieces ((Layout.ofCounts [(.field, 0xFFFF)] 0).writeValues Table.typeDef.columns
      (fields.withStart 0x10000 emptyType)) = .error (.malformed (.columnOverflow 0x10000)) := ⟨rfl, rfl, rfl⟩

end ListColumn

end CilWeaver
