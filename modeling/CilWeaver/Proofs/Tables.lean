import CilWeaver.Proofs.Reads
import CilWeaver.Table.Stream
import Mathlib.Data.List.Sort

/-!
A stream of tables is read back as the rows it was built from, each at its place.
-/

namespace CilWeaver

open Reader Step

namespace CodedIndex

/-- What is left of a reference in 32 bits. -/
def stored (kind : CodedKind) (i : CodedIndex) : CodedIndex := ⟨i.table, i.row % 2 ^ (32 - kind.tagBits)⟩

theorem stored_of_lt {kind : CodedKind} {i : CodedIndex} (small : i.row < 2 ^ (32 - kind.tagBits)) : i.stored kind = i := by
  rw [stored, Nat.mod_eq_of_lt small]

theorem stored_of_small (kind : CodedKind) {i : CodedIndex} (small : i.row < 2 ^ 24) : i.stored kind = i := by
  have power : 2 ^ 24 ≤ 2 ^ (32 - kind.tagBits) := by cases kind <;> decide
  exact stored_of_lt (Nat.lt_of_lt_of_le small power)

/-- What is left of a reference is read from its number. -/
theorem decode_encode_stored {kind : CodedKind} {i : CodedIndex} {value : Nat} (h : i.encode kind = .ok value) :
    decode kind value = .ok (i.stored kind) := by
  unfold encode at h
  split at h
  · rename_i tag found
    cases h
    obtain ⟨bound, same, -⟩ := List.idxOf?_eq_some_iff.mp found
    have tagBound := Nat.lt_of_lt_of_le bound kind.length_tables_le
    have split : 2 ^ 32 = 2 ^ kind.tagBits * 2 ^ (32 - kind.tagBits) := by cases kind <;> rfl
    have low : (i.row * 2 ^ kind.tagBits + tag) % 2 ^ 32 % 2 ^ kind.tagBits = tag := by
      rw [split, Nat.mod_mul_right_mod, Nat.mul_add_mod_self_right, Nat.mod_eq_of_lt tagBound]
    have high : (i.row * 2 ^ kind.tagBits + tag) % 2 ^ 32 / 2 ^ kind.tagBits = i.row % 2 ^ (32 - kind.tagBits) := by
      rw [split, Nat.mod_mul_right_div_self, Nat.mul_comm, Nat.mul_add_div (Nat.two_pow_pos _), Nat.div_eq_of_lt tagBound,
        Nat.add_zero]
    rw [decode]
    simp only [low, high, List.getElem?_eq_getElem bound, same, stored]
  · cases h

/-- A reference that a token could hold is the one that is read from its number. -/
theorem decode_encode {kind : CodedKind} {i : CodedIndex} {value : Nat} (small : i.row < 2 ^ 24)
    (h : i.encode kind = .ok value) : decode kind value = .ok i := by
  rw [decode_encode_stored h, stored_of_small kind small]

end CodedIndex

/-- A value whose row a token could hold, if it refers to one of several tables. -/
def Column.Small : (c : Column) → c.Value → Prop
  | .coded _, i => i.row < 2 ^ 24
  | .word, _ | .double, _ | .string, _ | .guid, _ | .blob, _ | .row _, _ => True

def Values.Small : (cs : List Column) → Values cs → Prop
  | [], _ => True
  | c :: cs, (v, vs) => c.Small v ∧ Values.Small cs vs

/-- The value that a column holds once it is written: a reference loses what is beyond 32 bits. -/
def Column.stored : (c : Column) → c.Value → c.Value
  | .coded kind, i => i.stored kind
  | .word, v | .double, v | .string, v | .guid, v | .blob, v | .row _, v => v

def Values.stored : (cs : List Column) → Values cs → Values cs
  | [], _ => ()
  | c :: cs, (v, vs) => (c.stored v, Values.stored cs vs)

theorem Column.stored_of_small {c : Column} {v : c.Value} (small : c.Small v) : c.stored v = v := by
  cases c with
  | coded kind => exact CodedIndex.stored_of_small kind small
  | _ => rfl

theorem Values.stored_of_small {cs : List Column} {vs : Values cs} (small : Values.Small cs vs) :
    Values.stored cs vs = vs := by
  induction cs with
  | nil => rfl
  | cons c cs ih => exact Prod.ext (Column.stored_of_small small.1) (ih small.2)

namespace Layout

theorem length_column {wide : Bool} {value : Nat} {bytes : Bytes} (h : column wide value = .ok bytes) :
    bytes.length = columnWidth wide := by
  unfold column at h
  split at h
  · cases h
    exact length_leBytes _ _
  · cases h

theorem length_writeColumn {l : Layout} {c : Column} {v : c.Value} {bytes : Bytes}
    (h : l.writeColumn c v = .ok bytes) : bytes.length = l.width c := by
  cases c with
  | word => cases h; exact length_leBytes _ _
  | double => cases h; exact length_leBytes _ _
  | string => exact length_column h
  | guid => exact length_column h
  | blob => exact length_column h
  | row t => exact length_column h
  | coded kind =>
    obtain ⟨value, -, hvalue⟩ := Outcome.bind_eq_ok.mp h
    exact length_column hvalue

theorem reads_readColumn {l : Layout} {c : Column} {v : c.Value} {bytes : Bytes}
    (h : l.writeColumn c v = .ok bytes) (position : Nat) :
    Reads (l.readColumn c) position bytes (c.stored v) := by
  cases c with
  | word => cases h; exact reads_u16 position v
  | double => cases h; exact reads_u32 position v
  | string => exact reads_column h position
  | guid => exact reads_column h position
  | blob => exact reads_column h position
  | row t => exact reads_column h position
  | coded kind =>
    obtain ⟨value, hencode, hvalue⟩ := Outcome.bind_eq_ok.mp h
    have decoded := CodedIndex.decode_encode_stored hencode
    have last : Reads (ofResult (CodedIndex.decode kind value)) (position + bytes.length) [] (v.stored kind) :=
      reads_ofResult decoded _
    have both : Reads (Reader.column (l.wideCoded kind) >>= fun n =>
        ofResult (CodedIndex.decode kind n)) position (bytes ++ []) (v.stored kind) :=
      (reads_column hvalue position).bind last
    have same : l.readColumn (.coded kind) =
        (Reader.column (l.wideCoded kind) >>= fun n => ofResult (CodedIndex.decode kind n)) := by
      change (Reader.column (l.wideCoded kind) >>= _) = _
      congr 1
      funext n
      cases CodedIndex.decode kind n <;> rfl
    rw [List.append_nil] at both
    rw [same]
    exact both

/-- The bytes of the columns of a row. -/
theorem reads_readValues {l : Layout} {cs : List Column} {vs : Values cs} {pieces : List Bytes}
    (h : l.writeValues cs vs = pieces.map .ok) (position : Nat) :
    Reads (l.readValues cs) position pieces.flatten (Values.stored cs vs) := by
  induction cs generalizing pieces position with
  | nil =>
    cases pieces with
    | nil => exact reads_pure position ()
    | cons => cases h
  | cons c cs ih =>
    obtain ⟨v, vs⟩ := vs
    cases pieces with
    | nil => cases h
    | cons piece pieces =>
      rw [writeValues, List.map_cons, List.cons.injEq] at h
      rw [List.flatten_cons]
      exact (reads_readColumn h.1 position).bind
        ((ih h.2 _).map fun vs => ((c.stored v, vs) : Values (c :: cs)))

theorem length_writeValues {l : Layout} {cs : List Column} {vs : Values cs} {pieces : List Bytes}
    (h : l.writeValues cs vs = pieces.map .ok) : pieces.flatten.length = (cs.map l.width).sum := by
  induction cs generalizing pieces with
  | nil =>
    cases pieces with
    | nil => rfl
    | cons => cases h
  | cons c cs ih =>
    obtain ⟨v, vs⟩ := vs
    cases pieces with
    | nil => cases h
    | cons piece pieces =>
      rw [writeValues, List.map_cons, List.cons.injEq] at h
      rw [List.flatten_cons, List.length_append, length_writeColumn h.1, ih h.2, List.map_cons,
        List.sum_cons]

end Layout

theorem joinPieces_eq_ok {pieces : List (Result Bytes)} {bytes : Bytes} :
    joinPieces pieces = .ok bytes ↔ ∃ parts : List Bytes, pieces = parts.map .ok ∧ bytes = parts.flatten := by
  unfold joinPieces
  rw [Outcome.map_eq_ok]
  constructor
  · rintro ⟨parts, h, rfl⟩
    refine ⟨parts, ?_, rfl⟩
    induction Outcome.mapM_eq_ok.mp h with
    | nil => rfl
    | cons first others ih =>
      rw [List.map_cons, ← ih (Outcome.mapM_eq_ok.mpr others), ← first]
      rfl
  · rintro ⟨parts, rfl, rfl⟩
    refine ⟨parts, ?_, rfl⟩
    rw [Outcome.mapM_eq_ok]
    induction parts with
    | nil => exact .nil
    | cons part parts ih => exact .cons rfl ih

/-- The bytes of one row. -/
def Layout.RowBytes (l : Layout) (t : Table) (row : Values t.columns) (bytes : Bytes) : Prop :=
  ∃ pieces : List Bytes, l.writeValues t.columns row = pieces.map .ok ∧ bytes = pieces.flatten

theorem rowBytes_of_pieces {l : Layout} {t : Table} {rows : List (Values t.columns)} {parts : List Bytes}
    (h : rows.flatMap (l.writeValues t.columns) = parts.map .ok) :
    ∃ each : List Bytes, List.Forall₂ (l.RowBytes t) rows each ∧ parts.flatten = each.flatten := by
  induction rows generalizing parts with
  | nil =>
    cases parts with
    | nil => exact ⟨[], .nil, rfl⟩
    | cons => cases h
  | cons row rows ih =>
    rw [List.flatMap_cons] at h
    obtain ⟨front, back, rfl, hfront, hback⟩ := List.append_eq_map_iff.mp h
    obtain ⟨each, all, same⟩ := ih hback.symm
    refine ⟨front.flatten :: each, .cons ⟨front, hfront.symm, rfl⟩ all, ?_⟩
    rw [List.flatten_append, same, List.flatten_cons]

/-- A table and its rows. -/
abbrev TableRows := (t : Table) × List (Values t.columns)

namespace TableRows

def count (d : TableRows) : Nat := d.2.length

/-- The table is among those with columns, and its rows hold nothing that a token could not. -/
structure Good (d : TableRows) : Prop where
  columns : d.1.columns ≠ []
  small : ∀ row ∈ d.2, Values.Small d.1.columns row

/-- The bytes of all rows, back to back. -/
def Bytes (l : Layout) (d : TableRows) (bytes : CilWeaver.Bytes) : Prop :=
  ∃ each : List CilWeaver.Bytes, List.Forall₂ (l.RowBytes d.1) d.2 each ∧ bytes = each.flatten

theorem rowSize?_eq {l : Layout} {t : Table} (h : t.columns ≠ []) :
    l.rowSize? t = some (t.columns.map l.width).sum := by
  rw [Layout.rowSize?, List.isEmpty_eq_false_iff.mpr h]
  rfl

theorem Bytes.length_eq {l : Layout} {d : TableRows} {bytes : CilWeaver.Bytes} (h : Bytes l d bytes) :
    bytes.length = (d.1.columns.map l.width).sum * d.count := by
  obtain ⟨t, rows⟩ := d
  obtain ⟨each, all, rfl⟩ := h
  simp only [count] at all ⊢
  induction all with
  | nil => simp
  | cons first others ih =>
    obtain ⟨pieces, hpieces, rfl⟩ := first
    rw [List.flatten_cons, List.length_append, Layout.length_writeValues hpieces, ih, List.length_cons,
      Nat.mul_succ, Nat.add_comm]

theorem width_pos (l : Layout) (c : Column) : 0 < l.width c := by
  have : ∀ wide, 0 < columnWidth wide := by decide
  cases c with
  | word => exact Nat.zero_lt_succ 1
  | double => exact Nat.zero_lt_succ 3
  | string => exact this _
  | guid => exact this _
  | blob => exact this _
  | row t => exact this _
  | coded kind => exact this _

theorem rowSize_pos (l : Layout) {t : Table} (h : t.columns ≠ []) : 0 < (t.columns.map l.width).sum := by
  obtain ⟨c, cs, hcs⟩ := List.exists_cons_of_ne_nil h
  rw [hcs, List.map_cons, List.sum_cons]
  have := width_pos l c
  omega

theorem Bytes.count_le {l : Layout} {d : TableRows} {bytes : CilWeaver.Bytes} (h : Bytes l d bytes)
    (columns : d.1.columns ≠ []) : d.count ≤ bytes.length := by
  rw [h.length_eq]
  exact Nat.le_mul_of_pos_left _ (rowSize_pos l columns)

/-- The rows as they are once they are written. -/
def stored (d : TableRows) : List (Values d.1.columns) := d.2.map (Values.stored d.1.columns)

theorem stored_eq {d : TableRows} (whole : ∀ row ∈ d.2, Values.stored d.1.columns row = row) : d.stored = d.2 :=
  (List.map_congr_left whole).trans (List.map_id' d.2)

theorem Bytes.reads {l : Layout} {d : TableRows} {bytes : CilWeaver.Bytes} (h : Bytes l d bytes) (position : Nat) :
    Reads (times d.count (l.readValues d.1.columns)) position bytes d.stored := by
  obtain ⟨t, rows⟩ := d
  obtain ⟨each, all, rfl⟩ := h
  have reads : ReadsAll (l.readValues t.columns) position each.flatten (rows.map (Values.stored t.columns)) := by
    simp only at all
    induction all generalizing position with
    | nil => exact .nil position
    | cons first others ih =>
      obtain ⟨pieces, hpieces, rfl⟩ := first
      exact .cons (Layout.reads_readValues hpieces position) (ih _)
  have whole := reads.times
  rwa [List.length_map] at whole

end TableRows

namespace TableStreamBuilder

/-- The builder holds the rows of these tables, none of which is empty. -/
structure Contains (b : TableStreamBuilder) (tables : List TableRows) : Prop where
  counts : b.counts = tables.map (·.count)
  rows : ∃ each : List Bytes, List.Forall₂ (TableRows.Bytes b.layout) tables each ∧ b.rows = each.flatten
  valid : b.valid = tables.foldl (fun mask d => mask ||| d.1.mask) 0
  last : ∀ d ∈ tables, ∃ last, b.last? = some last ∧ d.1.number ≤ last.number
  ascending : tables.Pairwise fun d e => d.1.number < e.1.number
  nonempty : ∀ d ∈ tables, d.2 ≠ []
  layout : ∀ d ∈ tables, b.layout.rows d.1 = d.count

theorem contains_nil (layout : Layout) : Contains { layout } [] :=
  ⟨rfl, ⟨[], .nil, rfl⟩, rfl, fun _ h => absurd h List.not_mem_nil, .nil,
    fun _ h => absurd h List.not_mem_nil, fun _ h => absurd h List.not_mem_nil⟩

/-- Adding rows keeps the layout, and the rows stand behind those that were there. -/
theorem addValues_ok {b b' : TableStreamBuilder} {tables : List TableRows} (h : Contains b tables)
    {t : Table} {rows : List (Values t.columns)} (run : addValues t rows b = .ok () b') :
    b'.layout = b.layout ∧
      Contains b' (tables ++ [(⟨t, rows⟩ : TableRows)].filter fun d => !d.2.isEmpty) := by
  unfold addValues at run
  by_cases empty : rows.isEmpty = true
  · rw [if_pos empty] at run
    obtain ⟨-, rfl⟩ := Step.pure_eq_ok.mp run
    refine ⟨rfl, ?_⟩
    simp only [List.filter_cons, empty, Bool.not_true, Bool.false_eq_true, ↓reduceIte, List.filter_nil,
      List.append_nil]
    exact h
  · rw [if_neg empty, bind_of_ok (show (get : EStateM Error _ _) b = .ok b b from rfl)] at run
    split at run
    · exact absurd run throw_ne_ok
    · rename_i order
      split at run
      · exact absurd run throw_ne_ok
      · rename_i count
        simp only at run
        cases joined : joinPieces (rows.flatMap (b.layout.writeValues t.columns)) with
        | error e =>
          simp only [joined] at run
          exact absurd run throw_ne_ok
        | ok bytes =>
          simp only [joined] at run
          cases run
          obtain ⟨parts, hparts, rfl⟩ := joinPieces_eq_ok.mp joined
          obtain ⟨each, all, flat⟩ := rowBytes_of_pieces hparts
          obtain ⟨before, written, hrows⟩ := h.rows
          have notEmpty : rows.isEmpty = false := Bool.eq_false_iff.mpr empty
          have before_t : ∀ d ∈ tables, d.1.number < t.number := by
            intro d hd
            obtain ⟨last, hlast, bound⟩ := h.last d hd
            rw [hlast, Option.any_some, decide_eq_true_eq] at order
            omega
          refine ⟨rfl, ?_⟩
          simp only [List.filter_cons, notEmpty, Bool.not_false, ↓reduceIte, List.filter_nil]
          refine ⟨?_, ?_, ?_, ?_, ?_, ?_, ?_⟩
          · rw [List.map_append, h.counts]
            rfl
          · refine ⟨before ++ [parts.flatten], ?_, ?_⟩
            · exact List.rel_append written (.cons ⟨each, all, flat⟩ .nil)
            · simp only [hrows, List.flatten_append, List.flatten_cons, List.flatten_nil, List.append_nil]
          · rw [List.foldl_append, h.valid]
            rfl
          · intro d member
            refine ⟨t, rfl, ?_⟩
            rcases List.mem_append.mp member with old | new
            · exact Nat.le_of_lt (before_t d old)
            · cases List.mem_singleton.mp new
              exact Nat.le_refl _
          · rw [List.pairwise_append]
            refine ⟨h.ascending, List.pairwise_singleton _ _, ?_⟩
            intro d hd e he
            cases List.mem_singleton.mp he
            exact before_t d hd
          · intro d member
            rcases List.mem_append.mp member with old | new
            · exact h.nonempty d old
            · cases List.mem_singleton.mp new
              exact List.isEmpty_eq_false_iff.mp notEmpty
          · intro d member
            rcases List.mem_append.mp member with old | new
            · exact h.layout d old
            · cases List.mem_singleton.mp new
              exact (of_not_not (mt bne_iff_ne.mpr count)).symm

/-- The bytes in front of the rows. -/
def head (b : TableStreamBuilder) : Bytes :=
  u32Bytes 0 ++ ([2, 0, b.layout.heapSizes, 1] ++ (u64Bytes b.valid ++ (u64Bytes 0
    ++ b.counts.flatMap (leBytes 4))))

theorem build_eq (b : TableStreamBuilder) :
    b.build = b.head ++ (b.rows ++ zeros (padding 4 (b.head.length + b.rows.length))) := by
  have shape : u32Bytes 0 ++ [2, 0, b.layout.heapSizes, 1] ++ u64Bytes b.valid ++ u64Bytes 0
      ++ b.counts.flatMap (leBytes 4) ++ b.rows = b.head ++ b.rows := by
    simp only [head, List.append_assoc]
  rw [build, shape, padTo, List.length_append, List.append_assoc]

theorem toNat_mask (t : Table) : t.mask.toNat = 2 ^ t.number := by
  cases t <;> decide

theorem testBit_foldl_mask {ι : Type} (table : ι → Table) (items : List ι) (mask : UInt64) (n : Nat) :
    (items.foldl (fun mask a => mask ||| (table a).mask) mask).toNat.testBit n =
      (mask.toNat.testBit n || items.any fun a => (table a).number == n) := by
  induction items generalizing mask with
  | nil => simp
  | cons a items ih =>
    rw [List.foldl_cons, ih, UInt64.toNat_or, Nat.testBit_or, toNat_mask, Nat.testBit_two_pow,
      List.any_cons, Bool.or_assoc]
    rfl

/-- The bits of a mask of tables are their numbers, in order. -/
theorem setBits_foldl_mask {ι : Type} {table : ι → Table} {items : List ι}
    (ascending : items.Pairwise fun a b => (table a).number < (table b).number) :
    TableStream.setBits (items.foldl (fun mask a => mask ||| (table a).mask) 0) =
      items.map fun a => (table a).number := by
  have numbers : (items.map fun a => (table a).number).Pairwise (· < ·) := List.pairwise_map.mpr ascending
  have sorted : (TableStream.setBits (items.foldl (fun mask a => mask ||| (table a).mask) 0)).Pairwise (· < ·) :=
    List.Pairwise.filter _ List.pairwise_lt_range
  refine sorted.eq_of_mem_iff numbers fun n => ?_
  rw [TableStream.setBits, List.mem_filter, List.mem_range, testBit_foldl_mask, UInt64.toNat_zero,
    Nat.zero_testBit, Bool.false_or, List.any_eq_true, List.mem_map]
  constructor
  · rintro ⟨-, a, member, same⟩
    exact ⟨a, member, beq_iff_eq.mp same⟩
  · rintro ⟨a, member, rfl⟩
    exact ⟨(table a).number_lt, a, member, beq_self_eq_true _⟩

theorem setBits_valid {b : TableStreamBuilder} {tables : List TableRows} (h : Contains b tables) :
    TableStream.setBits b.valid = tables.map (·.1.number) := by
  rw [h.valid]
  exact setBits_foldl_mask h.ascending

end TableStreamBuilder

namespace TableStream

open TableStreamBuilder

theorem reads_count {allowed : List Table} {t : Table} (member : t ∈ allowed) {rows : Nat}
    (few : rows ≤ maxRows) (position : Nat) :
    Reads (readCount allowed t.number) position (leBytes 4 rows) (t, rows) := by
  have found : (Table.ofNumber? t.number).filter allowed.contains = some t := by
    rw [Table.ofNumber?_number, Option.filter_some, List.contains_iff_mem.mpr member]
    rfl
  have bound : rows < 2 ^ 32 := Nat.lt_of_le_of_lt few (by decide)
  have number : (UInt32.ofNat rows).toNat = rows := by
    rw [UInt32.toNat_ofNat', Nat.mod_eq_of_lt bound]
  unfold readCount
  simp only [found]
  rw [← List.append_nil (leBytes 4 rows)]
  refine (reads_u32_ofNat bound position).bind ?_
  simp only [number, Nat.not_lt.mpr few, ↓reduceIte]
  exact reads_pure _ _

/-- A count that is read does not exceed the reach of tokens. -/
theorem count_le_of_read {allowed : List Table} {t : Table} (member : t ∈ allowed) {rows position : Nat}
    (bound : rows < 2 ^ 32) {rest : Bytes} {answer : Table × Nat} {after : Cursor}
    (h : readCount allowed t.number ⟨position, leBytes 4 rows ++ rest⟩ = .ok answer after) :
    rows ≤ maxRows := by
  have found : (Table.ofNumber? t.number).filter allowed.contains = some t := by
    rw [Table.ofNumber?_number, Option.filter_some, List.contains_iff_mem.mpr member]
    rfl
  have number : (UInt32.ofNat rows).toNat = rows := by
    rw [UInt32.toNat_ofNat', Nat.mod_eq_of_lt bound]
  unfold readCount at h
  simp only [found] at h
  rw [bind_of_ok (reads_u32_ofNat bound position rest)] at h
  simp only [number] at h
  by_cases few : maxRows < rows
  · rw [if_pos few] at h
    exact absurd h throw_ne_ok
  · omega

theorem counts_le_of_read {allowed : List Table} {tables : List TableRows}
    (member : ∀ d ∈ tables, d.1 ∈ allowed) (bound : ∀ d ∈ tables, d.count < 2 ^ 32) {position : Nat}
    {rest : Bytes} {answer : List (Table × Nat)} {after : Cursor}
    (h : (tables.map (·.1.number)).mapM (readCount allowed)
      ⟨position, (tables.map (·.count)).flatMap (leBytes 4) ++ rest⟩ = .ok answer after) :
    ∀ d ∈ tables, d.count ≤ maxRows := by
  induction tables generalizing position answer after with
  | nil => exact fun _ member => absurd member List.not_mem_nil
  | cons d tables ih =>
    rw [List.map_cons, List.map_cons, List.flatMap_cons, List.append_assoc, List.mapM_cons] at h
    obtain ⟨one, middle, first, others⟩ := bind_eq_ok.mp h
    have few := count_le_of_read (member d (by simp)) (bound d (by simp)) first
    rw [reads_count (member d (by simp)) few position] at first
    cases first
    obtain ⟨more, last, hmore, -⟩ := bind_eq_ok.mp others
    have rest := ih (fun e he => member e (by simp [he])) (fun e he => bound e (by simp [he])) hmore
    intro e he
    rcases List.mem_cons.mp he with rfl | he
    · exact few
    · exact rest e he

/-- The places of tables that lie back to back from `offset` on. -/
def placesFrom (layout : Layout) : (offset : Nat) → List TableRows → List TablePlace
  | _, [] => []
  | offset, d :: tables =>
    ⟨d.1, offset, d.count⟩
      :: placesFrom layout (offset + (d.1.columns.map layout.width).sum * d.count) tables

theorem place_eq {layout : Layout} {size offset : Nat} {tables : List TableRows} {each : List Bytes}
    (columns : ∀ d ∈ tables, d.1.columns ≠ []) (written : List.Forall₂ (TableRows.Bytes layout) tables each)
    (fits : offset + each.flatten.length ≤ size) :
    place layout size offset (tables.map fun d => (d.1, d.count)) = .ok (placesFrom layout offset tables) := by
  induction written generalizing offset with
  | nil => rfl
  | @cons d bytes tables each first others ih =>
    have length := first.length_eq
    rw [List.flatten_cons, List.length_append] at fits
    have rest : place layout size (offset + (d.1.columns.map layout.width).sum * d.count)
        (tables.map fun d => (d.1, d.count)) = .ok (placesFrom layout
          (offset + (d.1.columns.map layout.width).sum * d.count) tables) :=
      ih (fun e he => columns e (by simp [he])) (by omega)
    have inside : ¬ size < offset + (d.1.columns.map layout.width).sum * d.count := by omega
    rw [List.map_cons, place, TableRows.rowSize?_eq (columns d (by simp))]
    simp only [inside, ↓reduceIte, rest]
    rfl

/-- The rows of a table lie at its place. -/
theorem find_placesFrom {layout : Layout} (front back : Bytes) {tables : List TableRows} {each : List Bytes}
    (written : List.Forall₂ (TableRows.Bytes layout) tables each)
    (distinct : tables.Pairwise fun d e => d.1 ≠ e.1) {d : TableRows} (member : d ∈ tables) :
    ∃ offset bytes post,
      (placesFrom layout front.length tables).find? (·.table == d.1) = some ⟨d.1, offset, d.count⟩ ∧
        TableRows.Bytes layout d bytes ∧ (front ++ (each.flatten ++ back)).drop offset = bytes ++ post := by
  induction written generalizing front with
  | nil => exact absurd member List.not_mem_nil
  | @cons e bytes tables each first others ih =>
    obtain ⟨different, distinct⟩ := List.pairwise_cons.mp distinct
    rw [placesFrom, List.find?_cons, List.flatten_cons, List.append_assoc]
    by_cases head : d = e
    · subst head
      refine ⟨front.length, bytes, each.flatten ++ back, ?_, first, ?_⟩
      · simp only [beq_self_eq_true]
      · rw [List.drop_left]
    · have later : d ∈ tables := (List.mem_cons.mp member).resolve_left head
      have other : (e.1 == d.1) = false := beq_eq_false_iff_ne.mpr (different d later)
      have found := ih (front ++ bytes) distinct later
      rw [List.length_append, first.length_eq, List.append_assoc] at found
      simp only [other]
      exact found

theorem find_placesFrom_none {layout : Layout} {offset : Nat} {tables : List TableRows} {t : Table}
    (absent : ∀ d ∈ tables, d.1 ≠ t) :
    (placesFrom layout offset tables).find? (·.table == t) = none := by
  induction tables generalizing offset with
  | nil => rfl
  | cons d tables ih =>
    have other : (d.1 == t) = false := beq_eq_false_iff_ne.mpr (absent d (by simp))
    rw [placesFrom, List.find?_cons]
    simp only [other]
    exact ih fun e he => absent e (by simp [he])

/-- The stream that is read from a builder with these tables. -/
def ofBuilder (b : TableStreamBuilder) (tables : List TableRows) : TableStream :=
  ⟨b.build, b.layout, b.valid, 0, placesFrom b.layout b.head.length tables⟩

theorem values_ofBuilder {b : TableStreamBuilder} {tables : List TableRows} (h : Contains b tables)
    {d : TableRows} (member : d ∈ tables) : (ofBuilder b tables).values d.1 = .ok d.stored := by
  obtain ⟨each, written, rows⟩ := h.rows
  have distinct : tables.Pairwise fun d e => d.1 ≠ e.1 := h.ascending.imp fun less same =>
    Nat.ne_of_lt less (congrArg Table.number same)
  obtain ⟨offset, bytes, post, place, ofRows, shape⟩ :=
    find_placesFrom b.head (zeros (padding 4 (b.head.length + b.rows.length))) written distinct member
  rw [← rows, ← build_eq] at shape
  unfold values ofBuilder
  simp only [place, shape]
  exact (ofRows.reads 0).parse post

theorem values_ofBuilder_absent {b : TableStreamBuilder} {tables : List TableRows} {t : Table}
    (absent : ∀ d ∈ tables, d.1 ≠ t) : (ofBuilder b tables).values t = .ok [] := by
  unfold values ofBuilder
  simp only [find_placesFrom_none absent]

/-- The header of a stream leads up to its counts. -/
theorem readHeader_build {b : TableStreamBuilder} {tables : List TableRows} (h : Contains b tables)
    (allowed : List Table) :
    readHeader allowed (.start b.build) =
      (do
        let counts ← (tables.map (·.1.number)).mapM (readCount allowed)
        return (.ofCounts counts b.layout.heapSizes, b.valid, 0, counts) :
          Reader (Layout × UInt64 × UInt64 × List (Table × Nat)))
        ⟨24, (tables.map (·.count)).flatMap (leBytes 4)
          ++ (b.rows ++ zeros (padding 4 (b.head.length + b.rows.length)))⟩ := by
  rw [build_eq, head, readHeader, Cursor.start, ← h.counts]
  simp only [List.append_assoc, List.cons_append, List.nil_append]
  rw [bind_of_ok (reads_u32 0 0 _), bind_of_ok (show byte ⟨_, _⟩ = .ok _ ⟨_, _⟩ from rfl),
    bind_of_ok (show byte ⟨_, _⟩ = .ok _ ⟨_, _⟩ from rfl)]
  simp only [bne_self_eq_false, Bool.or_self, Bool.false_eq_true, ↓reduceIte]
  rw [bind_of_ok (show byte ⟨_, _⟩ = .ok _ ⟨_, _⟩ from rfl),
    bind_of_ok (show byte ⟨_, _⟩ = .ok _ ⟨_, _⟩ from rfl), bind_of_ok (reads_u64 _ b.valid _),
    bind_of_ok (reads_u64 _ 0 _), setBits_valid h]
  rfl

/-- The stream is read when no table has more rows than tokens can name. -/
theorem parse_build {b : TableStreamBuilder} {tables : List TableRows} (h : Contains b tables)
    (columns : ∀ d ∈ tables, d.1.columns ≠ []) {allowed : List Table} (member : ∀ d ∈ tables, d.1 ∈ allowed)
    (few : ∀ d ∈ tables, d.count ≤ maxRows)
    (layout : Layout.ofCounts (tables.map fun d => (d.1, d.count)) b.layout.heapSizes = b.layout) :
    parse allowed b.build = .ok (ofBuilder b tables) := by
  obtain ⟨each, written, rows⟩ := h.rows
  have counts : Reads ((tables.map (·.1.number)).mapM (readCount allowed)) 24
      ((tables.map (·.count)).flatMap (leBytes 4)) (tables.map fun d => (d.1, d.count)) := by
    rw [List.mapM_map, List.flatMap_map]
    exact reads_mapM (fun d hd => reads_count (member d hd) (few d hd)) 24
  have header : readHeader allowed (.start b.build) =
      .ok (b.layout, b.valid, 0, tables.map fun d => (d.1, d.count))
        ⟨b.head.length, b.rows ++ zeros (padding 4 (b.head.length + b.rows.length))⟩ := by
    have length : 24 + ((tables.map (·.count)).flatMap (leBytes 4)).length = b.head.length := by
      rw [head, h.counts]
      simp only [List.length_append, u32Bytes, u64Bytes, length_leBytes, List.length_cons,
        List.length_nil]
      omega
    rw [readHeader_build h, bind_of_ok (counts _), layout, length]
    rfl
  have size : b.build.length = b.head.length + (b.rows.length + (zeros
      (padding 4 (b.head.length + b.rows.length))).length) := by
    rw [build_eq, List.length_append, List.length_append]
  have fits : b.head.length + each.flatten.length ≤ b.build.length := by
    rw [← rows, size]
    omega
  have places := place_eq columns written fits
  unfold parse EStateM.run
  rw [header]
  simp only [places]
  rfl

/-- The tables of a stream that is read have no more rows than tokens can name. -/
theorem counts_le_of_parse {b : TableStreamBuilder} {tables : List TableRows} (h : Contains b tables)
    (columns : ∀ d ∈ tables, d.1.columns ≠ []) {allowed : List Table}
    (member : ∀ d ∈ tables, d.1 ∈ allowed) (size : b.build.length < 2 ^ 32) {s : TableStream}
    (read : parse allowed b.build = .ok s) : ∀ d ∈ tables, d.count ≤ maxRows := by
  obtain ⟨each, written, rows⟩ := h.rows
  have rowsSize : b.rows.length ≤ b.build.length := by
    rw [build_eq, List.length_append, List.length_append]
    omega
  have bound : ∀ d ∈ tables, d.count < 2 ^ 32 := by
    intro d hd
    obtain ⟨bytes, hbytes, ofRows⟩ := forall₂_of_mem written hd
    have := ofRows.count_le (columns d hd)
    have part : bytes.length ≤ each.flatten.length := (List.sublist_flatten_of_mem hbytes).length_le
    rw [← rows] at part
    omega
  unfold parse EStateM.run at read
  rw [readHeader_build h] at read
  split at read
  · cases read
  · rename_i run
    obtain ⟨counts, after, hcounts, -⟩ := bind_eq_ok.mp run
    exact counts_le_of_read member bound hcounts

end TableStream

end CilWeaver
