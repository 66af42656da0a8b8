import CilWeaver.Proofs.Failures
import CilWeaver.Proofs.ParsedImages
import CilWeaver.Proofs.Spans

/-!
Where the rows of an accepted stream of tables stand. The tables lie back to back in the order of their numbers, and
each row takes as many bytes as its columns are wide together. So every table can be read to its end, unless a
tag selects no table.
-/

namespace CilWeaver

open Step

namespace Reader

variable {α β : Type} {size : Nat} {fault : Error → Prop}

/-- The reader takes exactly `size` bytes and sees nothing else: of these bytes it makes a value, or a failure of a
    certain kind. -/
structure Sized (r : Reader α) (size : Nat) (fault : Error → Prop) : Prop where
  full : ∀ bytes : Bytes, bytes.length = size → (∃ a, ∀ position, r.Reads position bytes a) ∨
    ∃ e, fault e ∧ ∀ position rest, ∃ c, r ⟨position, bytes ++ rest⟩ = .error e c
  short : ∀ position (bytes : Bytes), bytes.length < size → ∃ e c, r ⟨position, bytes⟩ = .error e c

/-- The reader ends with this result, wherever it stops. -/
def Ends (r : Reader α) (c : Cursor) : Result α → Prop
  | .ok a => ∃ c', r c = .ok a c'
  | .error e => ∃ c', r c = .error e c'

theorem Ends.parse {r : Reader α} {data : Bytes} {result : Result α} (ends : r.Ends ⟨0, data⟩ result) :
    r.parse data = result := by
  unfold Reader.parse EStateM.run Cursor.start
  cases result with
  | ok a =>
    obtain ⟨c, run⟩ := ends
    rw [run]
  | error e =>
    obtain ⟨c, run⟩ := ends
    rw [run]

namespace Sized

theorem mono {r : Reader α} {weaker : Error → Prop} (h : r.Sized size fault) (each : ∀ e, fault e → weaker e) :
    r.Sized size weaker := by
  refine ⟨fun bytes length => ?_, h.short⟩
  rcases h.full bytes length with reads | ⟨e, own, fails⟩
  · exact .inl reads
  · exact .inr ⟨e, each e own, fails⟩

theorem pure (a : α) : Sized (Pure.pure a) 0 fault := by
  refine ⟨fun bytes length => ?_, fun _ _ short => absurd short (Nat.not_lt_zero _)⟩
  cases List.length_eq_zero_iff.mp length
  exact .inl ⟨a, fun position => reads_pure position a⟩

theorem throw {e : Error} (own : fault e) : Sized (MonadExcept.throw e : Reader α) 0 fault :=
  ⟨fun _ _ => .inr ⟨e, own, fun _ _ => ⟨_, rfl⟩⟩, fun _ _ short => absurd short (Nat.not_lt_zero _)⟩

theorem take (count : Nat) : Sized (Reader.take count) count fault := by
  refine ⟨fun bytes length => .inl ⟨bytes, fun position => reads_take_of_length position length⟩, ?_⟩
  intro position bytes short
  have few : (bytes.take count).length ≠ count := by
    rw [List.length_take]
    omega
  exact ⟨.outOfBounds, ⟨position, bytes⟩, if_neg few⟩

theorem bind {r : Reader α} {f : α → Reader β} {more : Nat} (first : r.Sized size fault)
    (second : ∀ a, (f a).Sized more fault) : (r >>= f).Sized (size + more) fault := by
  constructor
  · intro bytes length
    rw [← List.take_append_drop size bytes]
    have front : (bytes.take size).length = size := by
      rw [List.length_take]
      omega
    have back : (bytes.drop size).length = more := by
      rw [List.length_drop]
      omega
    rcases first.full _ front with ⟨a, reads⟩ | ⟨e, own, fails⟩
    · rcases (second a).full _ back with ⟨b, others⟩ | ⟨e, own, fails⟩
      · exact .inl ⟨b, fun position => (reads position).bind (others _)⟩
      · refine .inr ⟨e, own, fun position rest => ?_⟩
        rw [List.append_assoc, bind_of_ok (reads position _)]
        exact fails _ rest
    · refine .inr ⟨e, own, fun position rest => ?_⟩
      rw [List.append_assoc]
      obtain ⟨c, failed⟩ := fails position (bytes.drop size ++ rest)
      exact ⟨c, bind_of_error failed f⟩
  -- too few bytes for both readers are too few for the first one, or leave too few for the second one
  · intro position bytes short
    by_cases enough : bytes.length < size
    · obtain ⟨e, c, failed⟩ := first.short position bytes enough
      exact ⟨e, c, bind_of_error failed f⟩
    · have front : (bytes.take size).length = size := by
        rw [List.length_take]
        omega
      have back : (bytes.drop size).length < more := by
        rw [List.length_drop]
        omega
      rw [← List.take_append_drop size bytes]
      rcases first.full _ front with ⟨a, reads⟩ | ⟨e, -, fails⟩
      · obtain ⟨e, c, failed⟩ := (second a).short (position + (bytes.take size).length) _ back
        exact ⟨e, c, (bind_of_ok (reads position _) f).trans failed⟩
      · obtain ⟨c, failed⟩ := fails position (bytes.drop size)
        exact ⟨e, c, bind_of_error failed f⟩

theorem map {r : Reader α} (h : r.Sized size fault) (f : α → β) : Sized (do return f (← r)) size fault :=
  h.bind fun a => pure (f a)

theorem column (wide : Bool) : Sized (Reader.column wide) (columnWidth wide) fault := (take _).map leNat

/-- Of data that are long enough, the reader makes what it makes of its own bytes. -/
theorem cases {r : Reader α} (h : r.Sized size fault) {data : Bytes} (enough : size ≤ data.length) (position : Nat) :
    (∃ a, r.parse (data.take size) = .ok a ∧ r ⟨position, data⟩ = .ok a ⟨position + size, data.drop size⟩) ∨
      ∃ e c, fault e ∧ r.parse (data.take size) = .error e ∧ r ⟨position, data⟩ = .error e c := by
  have front : (data.take size).length = size := by
    rw [List.length_take]
    omega
  rcases h.full _ front with ⟨a, reads⟩ | ⟨e, own, fails⟩
  · have first := (reads 0).parse []
    have run := reads position (data.drop size)
    rw [List.append_nil] at first
    rw [List.take_append_drop, front] at run
    exact .inl ⟨a, first, run⟩
  · obtain ⟨c, first⟩ := fails 0 []
    obtain ⟨c', run⟩ := fails position (data.drop size)
    rw [List.append_nil] at first
    rw [List.take_append_drop] at run
    have alone : r.Ends ⟨0, data.take size⟩ (.error e) := ⟨c, first⟩
    exact .inr ⟨e, c', own, alone.parse, run⟩

/-- A reader that succeeds stops `size` bytes further. -/
theorem stops {r : Reader α} (h : r.Sized size fault) {position : Nat} {data : Bytes} {a : α} {c : Cursor}
    (run : r ⟨position, data⟩ = .ok a c) : size ≤ data.length ∧ c = ⟨position + size, data.drop size⟩ := by
  by_cases short : data.length < size
  · obtain ⟨e, c', failed⟩ := h.short position data short
    rw [failed] at run
    cases run
  · have enough := Nat.le_of_not_lt short
    rcases h.cases enough position with ⟨b, -, own⟩ | ⟨e, c', -, -, failed⟩
    · rw [own] at run
      cases run
      exact ⟨enough, rfl⟩
    · rw [failed] at run
      cases run

theorem failsWith {r : Reader α} (h : r.Sized size fault) {data : Bytes} (enough : size ≤ data.length) :
    Outcome.FailsWith fault (r.parse (data.take size)) := by
  intro e failed
  rcases h.cases enough 0 with ⟨a, read, -⟩ | ⟨e', c, own, first, -⟩
  · rw [read] at failed
    cases failed
  · rw [first] at failed
    cases failed
    exact own

/-- The values of a loop are those of consecutive pieces of the data, read each for itself. -/
theorem timesFrom {r : Reader α} (h : r.Sized size fault) (done : List α) (count position : Nat) (data : Bytes)
    (enough : size * count ≤ data.length) : (Reader.timesFrom r done count).Ends ⟨position, data⟩
      (((List.range count).mapM fun i => r.parse ((data.drop (size * i)).take size)).map (done.reverse ++ ·)) := by
  induction count generalizing done position data with
  | zero => exact ⟨⟨position, data⟩, congrArg (EStateM.Result.ok · _) (List.append_nil _).symm⟩
  | succ count ih =>
    rw [Nat.mul_succ] at enough
    have more : size * count ≤ (data.drop size).length := by
      rw [List.length_drop]
      omega
    have others : ((List.range count).map Nat.succ).mapM (fun i => r.parse ((data.drop (size * i)).take size)) =
        (List.range count).mapM fun i => r.parse (((data.drop size).drop (size * i)).take size) := by
      rw [List.mapM_map]
      congr 1
      funext i
      rw [List.drop_drop, Function.comp_apply, Nat.mul_succ, Nat.add_comm]
    rw [List.range_succ_eq_map, List.mapM_cons, others, Nat.mul_zero, List.drop_zero]
    rcases h.cases (Nat.le_trans (Nat.le_add_left _ _) enough) position with ⟨a, first, run⟩ | ⟨e, c, -, first, failed⟩
    · have loop : Reader.timesFrom r done (count + 1) ⟨position, data⟩ =
          Reader.timesFrom r (a :: done) count ⟨position + size, data.drop size⟩ := bind_of_ok run _
      have step := ih (a :: done) (position + size) (data.drop size) more
      rw [first, Outcome.ok_bind]
      generalize (List.range count).mapM (fun i => r.parse (((data.drop size).drop (size * i)).take size)) = rest at step ⊢
      cases rest with
      | ok as =>
        obtain ⟨c, ended⟩ := step
        refine ⟨c, loop.trans (ended.trans ?_)⟩
        simp
      | error e =>
        obtain ⟨c, ended⟩ := step
        exact ⟨c, loop.trans ended⟩
    · rw [first]
      exact ⟨c, bind_of_error failed _⟩

theorem times {r : Reader α} (h : r.Sized size fault) {count : Nat} {data : Bytes} (enough : size * count ≤ data.length) :
    (Reader.times count r).parse data =
      (List.range count).mapM fun i => r.parse ((data.drop (size * i)).take size) := by
  have ends := (h.timesFrom [] count 0 data enough).parse
  rw [Reader.times, ends]
  generalize (List.range count).mapM (fun i => r.parse ((data.drop (size * i)).take size)) = found
  cases found <;> rfl

end Sized

end Reader

open Reader

/-- The failure on a tag that selects no table, in one of the columns. -/
def Column.WrongTag (columns : List Column) (e : Error) : Prop :=
  ∃ kind tag, .coded kind ∈ columns ∧ tag < 2 ^ kind.tagBits ∧ kind.tables[tag]? = none ∧
    e = .malformed (.codedTag tag kind)

namespace Layout

theorem sized_readColumn (l : Layout) (c : Column) : (l.readColumn c).Sized (l.width c) (Column.WrongTag [c]) := by
  cases c with
  | word => exact (Sized.take 2).map _
  | double => exact (Sized.take 4).map _
  | string => exact .column _
  | guid => exact .column _
  | blob => exact .column _
  | row t => exact .column _
  | coded kind =>
    refine (Sized.column (l.wideCoded kind)).bind fun value => (?_ : Reader.Sized _ 0 _)
    cases decoded : CodedIndex.decode kind value with
    | ok index => exact .pure index
    | error e =>
      apply Sized.throw
      unfold CodedIndex.decode at decoded
      dsimp only at decoded
      cases tagged : kind.tables[value % 2 ^ kind.tagBits]? with
      | some table =>
        rw [tagged] at decoded
        cases decoded
      | none =>
        rw [tagged] at decoded
        cases decoded
        exact ⟨kind, _, List.mem_singleton_self _, Nat.mod_lt _ (Nat.two_pow_pos _), tagged, rfl⟩

theorem sized_readValues (l : Layout) (cs : List Column) :
    (l.readValues cs).Sized (cs.map l.width).sum (Column.WrongTag cs) := by
  induction cs with
  | nil => exact .pure ()
  | cons c cs ih =>
    have first : (l.readColumn c).Sized (l.width c) (Column.WrongTag (c :: cs)) := by
      apply (l.sized_readColumn c).mono
      rintro e ⟨kind, tag, member, wrong⟩
      exact ⟨kind, tag, List.mem_cons.mpr (.inl (List.mem_singleton.mp member)), wrong⟩
    have others : (l.readValues cs).Sized (cs.map l.width).sum (Column.WrongTag (c :: cs)) := by
      apply ih.mono
      rintro e ⟨kind, tag, member, wrong⟩
      exact ⟨kind, tag, List.mem_cons_of_mem _ member, wrong⟩
    rw [List.map_cons, List.sum_cons]
    exact first.bind fun v => others.map _

/-- A row of the table takes `size` bytes, read from anywhere and written. -/
structure RowTakes (l : Layout) (t : Table) (size : Nat) : Prop where
  read : ∀ position data row c, l.readValues t.columns ⟨position, data⟩ = .ok row c →
    size ≤ data.length ∧ c = ⟨position + size, data.drop size⟩
  written : ∀ row bytes, joinPieces (l.writeValues t.columns row) = .ok bytes → bytes.length = size

theorem rowSize?_eq_some {l : Layout} {t : Table} {size : Nat} (sized : l.rowSize? t = some size) :
    size = (t.columns.map l.width).sum := by
  unfold rowSize? at sized
  split at sized
  · cases sized
  · exact (Option.some.inj sized).symm

theorem rowTakes_of_rowSize? {l : Layout} {t : Table} {size : Nat} (sized : l.rowSize? t = some size) :
    l.RowTakes t size := by
  cases rowSize?_eq_some sized
  refine ⟨fun position data row c run => (l.sized_readValues t.columns).stops run, fun row bytes joined => ?_⟩
  obtain ⟨parts, written, rfl⟩ := joinPieces_eq_ok.mp joined
  exact length_writeValues written

end Layout

namespace TableStream

/-- The tables stand one behind the other, from an offset to a stop. -/
inductive BackToBack (layout : Layout) : Nat → List TablePlace → Nat → Prop
  | nil {offset} : BackToBack layout offset [] offset
  | cons {t offset rows size places stop} (sized : layout.rowSize? t = some size)
      (others : BackToBack layout (offset + size * rows) places stop) :
      BackToBack layout offset (⟨t, offset, rows⟩ :: places) stop

theorem BackToBack.offset_le {layout : Layout} {offset stop : Nat} {places : List TablePlace}
    (h : BackToBack layout offset places stop) : offset ≤ stop := by
  induction h with
  | nil => exact Nat.le_refl _
  | cons sized others ih => omega

/-- A table among others ends where these end, at the latest. -/
theorem BackToBack.end_le {layout : Layout} {offset stop : Nat} {places : List TablePlace}
    (h : BackToBack layout offset places stop) {place : TablePlace} (member : place ∈ places) :
    ∃ size, layout.rowSize? place.table = some size ∧ place.offset + size * place.rows ≤ stop := by
  induction h with
  | nil => exact absurd member List.not_mem_nil
  | cons sized others ih =>
    rcases List.mem_cons.mp member with rfl | member
    · exact ⟨_, sized, others.offset_le⟩
    · exact ih member

theorem backToBack_of_place (layout : Layout) (size offset : Nat) (counts : List (Table × Nat)) (inside : offset ≤ size) :
    Outcome.Answers (place layout size offset counts) fun places => ∃ stop ≤ size, BackToBack layout offset places stop := by
  induction counts generalizing offset with
  | nil =>
    intro places h
    cases h
    exact ⟨offset, inside, .nil⟩
  | cons count counts ih =>
    obtain ⟨t, rows⟩ := count
    unfold place
    cases sized : layout.rowSize? t with
    | none => exact .error
    | some rowSize =>
      refine .ite (fun _ => .error) fun enough => .bind_of (ih _ (Nat.le_of_not_lt enough)) fun places rest => .pure ?_
      obtain ⟨stop, within, others⟩ := rest
      exact ⟨stop, within, .cons sized others⟩

theorem consumes_readCount (allowed : List Table) (number : Nat) :
    Consumes (readCount allowed number) fun taken _ => taken.length = 4 := by
  unfold readCount
  cases (Table.ofNumber? number).filter allowed.contains with
  | none => exact Consumes.malformed _
  | some table =>
    refine Consumes.bind Spans.u32 fun front rows own => Consumes.check fun _ => .pure ?_
    rw [List.append_nil, own]
    exact length_leBytes _ _

theorem consumes_counts (allowed : List Table) (numbers : List Nat) :
    Consumes (numbers.mapM (readCount allowed)) fun taken counts => taken.length = 4 * counts.length := by
  induction numbers with
  | nil =>
    rw [List.mapM_nil]
    exact .pure rfl
  | cons number numbers ih =>
    rw [List.mapM_cons]
    refine (consumes_readCount allowed number).bind fun front count one => ih.bind fun back counts others => .pure ?_
    rw [List.append_nil, List.length_append, one, others, List.length_cons]
    omega

/-- In front of the rows stand 24 bytes and a count for each table. -/
theorem consumes_readHeader (allowed : List Table) :
    Consumes (readHeader allowed) fun taken found => taken.length = 24 + 4 * found.2.2.2.length := by
  unfold readHeader
  refine Consumes.bind Spans.u32 fun a _ ha => Consumes.bind Spans.byte fun b major hb =>
    Consumes.bind Spans.byte fun c minor hc => Consumes.check fun _ => Consumes.bind Spans.byte fun d sizes hd =>
      Consumes.bind Spans.byte fun e _ he => Consumes.bind Spans.u64 fun f valid hf => Consumes.bind Spans.u64 fun g sorted hg =>
        (consumes_counts allowed _).bind fun h counts hh => .pure ?_
  subst ha hb hc hd he hf hg
  simp only [List.length_append, List.length_cons, List.length_nil, u32Bytes, u64Bytes, length_leBytes, hh]
  omega

/-- The tables of a stream: they stand in the order of their numbers, back to back, behind the header and inside of the
    data, each with the rows that are counted. -/
structure Arranged (s : TableStream) (data : Bytes) : Prop where
  whole : s.data = data
  ascending : (s.places.map (·.table.number)).Pairwise (· < ·)
  backToBack : ∃ stop ≤ data.length, BackToBack s.layout (24 + 4 * s.places.length) s.places stop
  rows : ∀ t, s.layout.rows t = ((s.places.find? (·.table == t)).map (·.rows)).getD 0

theorem answers_setBits (allowed : List Table) :
    (readHeader allowed).Answers fun found => (found.2.2.2.map (·.1.number)).Pairwise (· < ·) := by
  unfold readHeader
  refine .bind fun _ => .bind fun major => .bind fun minor => .check (.bind fun sizes => .bind fun _ =>
    .bind fun valid => .bind fun sorted => .bind_of (answers_numbers allowed _) fun counts numbers => .pure ?_)
  dsimp only
  rw [numbers]
  exact List.pairwise_lt_range.filter _

theorem arranged_of_parse {allowed : List Table} {data : Bytes} {s : TableStream} (h : parse allowed data = .ok s) :
    s.Arranged data := by
  obtain ⟨counted, listed⟩ := counted_of_parse h
  obtain ⟨counts, c, run, placed, same⟩ := exists_header h
  have places := counts_of_place _ placed
  obtain ⟨taken, rest, position, length⟩ := consumes_readHeader allowed _ _ _ run
  dsimp only at rest position length
  have few : counts.length = s.places.length := by
    rw [← places, List.length_map]
  have inside : c.position ≤ data.length := by
    rw [rest, List.length_append, position]
    omega
  refine ⟨same, ?_, ?_, listed.rows_eq⟩
  · have numbers := answers_setBits allowed _ _ _ run
    dsimp only at numbers
    rw [← places, List.map_map] at numbers
    exact numbers
  · have start : c.position = 24 + 4 * s.places.length := by
      rw [position, length, few, Nat.zero_add]
    rw [← start]
    exact backToBack_of_place _ _ _ _ inside _ placed

theorem Arranged.find? {s : TableStream} {data : Bytes} (arranged : s.Arranged data) {place : TablePlace}
    (member : place ∈ s.places) : s.places.find? (·.table == place.table) = some place := by
  have ascending := arranged.ascending
  generalize s.places = places at member ascending
  induction places with
  | nil => exact absurd member List.not_mem_nil
  | cons first others ih =>
    obtain ⟨above, rest⟩ := List.pairwise_cons.mp ascending
    rcases List.mem_cons.mp member with rfl | member
    · exact List.find?_cons_of_pos (beq_self_eq_true _)
    · have below := above _ (List.mem_map_of_mem member)
      have other : (first.table == place.table) = false :=
        beq_false_of_ne fun same => Nat.ne_of_lt below (congrArg Table.number same)
      rw [List.find?_cons, other]
      exact ih member rest

/-- The row in the `size` bytes from an offset on. -/
def rowAt (s : TableStream) (ρ : Type) [TableRow ρ] (offset size : Nat) : Result ρ :=
  ((s.layout.readValues (TableRow.table ρ).columns).parse ((s.data.drop offset).take size)).map TableRow.ofValues

theorem rows_of_place {s : TableStream} {data : Bytes} (arranged : s.Arranged data) {ρ : Type} [TableRow ρ]
    {place : TablePlace} (member : place ∈ s.places) (own : place.table = TableRow.table ρ) {size : Nat}
    (sized : s.layout.rowSize? place.table = some size) :
    s.rows ρ = (List.range place.rows).mapM fun i => s.rowAt ρ (place.offset + size * i) size := by
  obtain ⟨stop, inside, packed⟩ := arranged.backToBack
  obtain ⟨size', sized', ends⟩ := packed.end_le member
  cases Option.some.inj (sized.symm.trans sized')
  have reader := s.layout.sized_readValues (TableRow.table ρ).columns
  rw [← Layout.rowSize?_eq_some (own ▸ sized)] at reader
  have enough : size * place.rows ≤ (s.data.drop place.offset).length := by
    rw [List.length_drop, arranged.whole]
    omega
  have found := arranged.find? member
  rw [own] at found
  unfold rows values
  rw [found]
  dsimp only
  rw [reader.times enough, Outcome.map_mapM]
  congr 1
  funext i
  rw [List.drop_drop]
  rfl

/-- A row that stands inside of the data is read, or has a tag that selects no table. -/
theorem rowAt_failsWith {s : TableStream} {ρ : Type} [TableRow ρ] {offset size : Nat}
    (sized : s.layout.rowSize? (TableRow.table ρ) = some size) (inside : offset + size ≤ s.data.length) :
    Outcome.FailsWith (Column.WrongTag (TableRow.table ρ).columns) (s.rowAt ρ offset size) := by
  have reader := s.layout.sized_readValues (TableRow.table ρ).columns
  rw [← Layout.rowSize?_eq_some sized] at reader
  have enough : size ≤ (s.data.drop offset).length := by
    rw [List.length_drop]
    omega
  exact (reader.failsWith enough).map _

theorem rows_failsWith {s : TableStream} {data : Bytes} (arranged : s.Arranged data) (ρ : Type) [TableRow ρ] :
    Outcome.FailsWith (Column.WrongTag (TableRow.table ρ).columns) (s.rows ρ) := by
  cases found : s.places.find? (·.table == TableRow.table ρ) with
  | none =>
    unfold rows values
    rw [found]
    exact .ok _
  | some place =>
    have own : place.table = TableRow.table ρ := by simpa using List.find?_some found
    have member := List.mem_of_find?_eq_some found
    obtain ⟨stop, inside, packed⟩ := arranged.backToBack
    obtain ⟨size, sized, ends⟩ := packed.end_le member
    rw [rows_of_place arranged member own sized]
    intro e failed
    obtain ⟨earlier, i, later, all, -, here⟩ := Outcome.mapM_eq_error.mp failed
    have listed : i < place.rows := List.mem_range.mp (all ▸ List.mem_append_right _ List.mem_cons_self)
    have within : place.offset + size * i + size ≤ s.data.length := by
      have next := Nat.mul_le_mul_left size (Nat.succ_le_of_lt listed)
      rw [Nat.mul_succ] at next
      rw [arranged.whole]
      omega
    exact rowAt_failsWith (own ▸ sized) within e here

/-- An accepted stream can be read to the end of each table. -/
theorem accepted_reads_to_end {allowed : List Table} {data : Bytes} {s : TableStream} (h : parse allowed data = .ok s) :
    s.Arranged data ∧
      (∀ (ρ : Type) [TableRow ρ],
        ((∃ rows, s.rows ρ = .ok rows ∧ rows.length = s.layout.rows (TableRow.table ρ)) ∨
          ∃ e, s.rows ρ = .error e ∧ Column.WrongTag (TableRow.table ρ).columns e) ∧
        ∀ place ∈ s.places, place.table = TableRow.table ρ → ∀ size, s.layout.rowSize? place.table = some size →
          s.rows ρ = (List.range place.rows).mapM fun i => s.rowAt ρ (place.offset + size * i) size) ∧
      ∀ (l : Layout) t size, l.rowSize? t = some size → l.RowTakes t size := by
  have arranged := arranged_of_parse h
  obtain ⟨counts, counted⟩ := counted_of_parse h
  refine ⟨arranged, fun ρ _ => ⟨?_, fun place member own size => rows_of_place arranged member own⟩,
    fun l t size => Layout.rowTakes_of_rowSize?⟩
  cases read : s.rows ρ with
  | ok rows => exact .inl ⟨rows, rfl, (counted.length_rows _ read).symm⟩
  | error e => exact .inr ⟨e, rfl, rows_failsWith arranged ρ e read⟩

/-- A module and two references to members, of which the second has a tag without a table. -/
def taggedSample : Bytes :=
  u32Bytes 0 ++ [2, 0, 0, 1] ++ u64Bytes 0x401 ++ u64Bytes 0 ++ u32Bytes 1 ++ u32Bytes 2 ++
    [0, 0, 1, 0, 1, 0, 0, 0, 0, 0] ++ [9, 0, 7, 0, 3, 0] ++ [13, 0, 7, 0, 3, 0]

theorem accepted_reads_to_end_sample : ∃ s, parse Table.ofModule taggedSample = .ok s ∧ s.Arranged taggedSample ∧
    s.rows MemberRefRow = (List.range 2).mapM (fun i => s.rowAt MemberRefRow (42 + 6 * i) 6) ∧
    s.rowAt MemberRefRow 42 6 = .ok ⟨⟨.typeRef, 1⟩, 7, 3⟩ ∧
    s.rows MemberRefRow = .error (.malformed (.codedTag 5 .memberRefParent)) ∧
    s.rows ModuleRow = .ok [⟨0, 1, 1, 0, 0⟩] := by
  have accepted : parse Table.ofModule taggedSample = .ok _ := rfl
  obtain ⟨arranged, tables, -⟩ := accepted_reads_to_end accepted
  exact ⟨_, accepted, arranged, (tables MemberRefRow).2 ⟨.memberRef, 42, 2⟩ (.tail _ (.head _)) rfl 6 rfl, rfl, rfl, rfl⟩

end TableStream

end CilWeaver
