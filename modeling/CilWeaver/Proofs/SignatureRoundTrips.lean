import CilWeaver.Proofs.SignatureReading
import CilWeaver.Proofs.SignatureWriting

/-!
Signatures survive being written and read. What was read is written again without loss, unless it names a row that no token
can hold: such a row is accepted, but the token of the signature names another one.
-/

namespace CilWeaver

open Step Reader Compressed Outcome

/-- A kind of signature: its spellings, the reader and the writer. -/
structure SignatureKind (α : Type) where
  Spelled : α → Bytes → List CodedIndex → Prop
  Regular : α → Prop
  depth : α → Nat
  tokens : α → List Token
  read : Reader α
  encode : α → Result Bytes

namespace SignatureKind

variable {α : Type} {k : SignatureKind α}

/-- The reader accepts what is spelled and nothing else, and the writer spells what is regular. -/
structure Laws (k : SignatureKind α) : Prop where
  names {v bytes names} : k.Spelled v bytes names → List.Forall₂ Token.Names (k.tokens v) names
  regular {v bytes names} : k.Spelled v bytes names → k.Regular v
  consumes : k.read.Consumes fun taken v => ∃ names, k.Spelled v taken names ∧ k.depth v ≤ maxTypeNesting
  reads {v bytes names} : k.Spelled v bytes names → k.depth v ≤ maxTypeNesting → ∀ position, Reads k.read position bytes v
  leaves {v bytes names} : k.Spelled v bytes names → Leaves (k.encode v) (CodedIndex.spare names) bytes.length
  spelled {v bytes} : k.encode v = .ok bytes → k.Regular v → (∀ token ∈ k.tokens v, token.row ≠ 0) → ∃ names, k.Spelled v bytes names

theorem Laws.read_encode (laws : k.Laws) {v : α} {blob : Bytes} (regular : k.Regular v) (inside : k.depth v ≤ maxTypeNesting)
    (rows : ∀ token ∈ k.tokens v, token.row ≠ 0) (h : k.encode v = .ok blob) : k.read (.start blob) = .ok v ⟨blob.length, []⟩ := by
  rcases laws.spelled h regular rows with ⟨names, spelled⟩
  have run := laws.reads spelled inside 0 []
  rw [List.append_nil, Nat.zero_add] at run
  exact run

theorem row_ne_zero_iff {tokens : List Token} {names : List CodedIndex} (h : List.Forall₂ Token.Names tokens names) :
    (∀ token ∈ tokens, token.row ≠ 0) ↔ CodedIndex.spare names = 0 := by
  induction h with
  | nil => simp [CodedIndex.spare]
  | @cons token index tokens names first others ih =>
    have split := CodedIndex.spare_append [index] names
    rw [List.singleton_append, CodedIndex.spare_singleton] at split
    rw [List.forall_mem_cons, ih, split, first.token, CodedIndex.isLost]
    by_cases lost : index.token.row = 0
    · simp [lost]
    · simp [lost]

/-- Tokens are those of the rows that were named if these rows are not too large for tokens. -/
theorem row_eq_iff {tokens : List Token} {names : List CodedIndex} (h : List.Forall₂ Token.Names tokens names) :
    (∀ index ∈ names, index.row < 2 ^ 24) ↔
      (∀ token ∈ tokens, token.row ≠ 0) ∧ List.Forall₂ (fun token index => token.row = index.row) tokens names := by
  induction h with
  | nil => simp
  | @cons token index tokens names first others ih =>
    have low : token.row = index.row % 2 ^ 24 := by
      rw [first.token]
      exact Token.row_ofRow index.table index.row
    have nonzero := first.row
    rw [List.forall_mem_cons, ih, List.forall_mem_cons, List.forall₂_cons]
    constructor
    · rintro ⟨small, rows, same⟩
      rw [Nat.mod_eq_of_lt small] at low
      exact ⟨⟨low ▸ nonzero, rows⟩, low, same⟩
    · rintro ⟨⟨-, rows⟩, own, same⟩
      exact ⟨own ▸ token.row_lt, rows, same⟩

/-- What is known of a value that was read from the bytes `taken`, which name some rows, and of the blob that is written for
    it. The value is read again unless a token has no row. Nothing is lost just if the rows are not too large for tokens. -/
structure Rewritten (k : SignatureKind α) (v : α) (taken : Bytes) (names : List CodedIndex) (blob : Bytes) : Prop where
  spelled : k.Spelled v taken names
  named : List.Forall₂ Token.Names (k.tokens v) names
  written : k.encode v = .ok blob
  room : blob.length ≤ taken.length
  again : k.read.parse blob = .ok v ↔ ∀ token ∈ k.tokens v, token.row ≠ 0
  lossless : (∀ index ∈ names, index.row < 2 ^ 24) ↔
    k.read.parse blob = .ok v ∧ List.Forall₂ (fun token index => token.row = index.row) (k.tokens v) names

theorem Laws.rewritten (laws : k.Laws) {data : Bytes} {v : α} {c : Cursor} (run : k.read (.start data) = .ok v c) :
    ∃ taken names blob, data = taken ++ c.rest ∧ k.Rewritten v taken names blob := by
  rcases laws.consumes _ _ _ run with ⟨taken, split, -, names, spelled, inside⟩
  rcases laws.leaves spelled with ⟨blob, written, room⟩
  have named := laws.names spelled
  have again : k.read.parse blob = .ok v ↔ ∀ token ∈ k.tokens v, token.row ≠ 0 := by
    constructor
    · intro again
      -- The blob spells the value as well, and nothing that is written for it could be shorter.
      rcases laws.consumes.parse again with ⟨taken', rest, whole, names', spelled', -⟩
      rcases laws.leaves spelled' with ⟨blob', written', room'⟩
      have same : blob = blob' := Except.ok.inj (written.symm.trans written')
      have length := congrArg List.length whole
      rw [List.length_append, same] at length
      exact (row_ne_zero_iff (laws.names spelled')).mpr (by omega)
    · intro rows
      have back := laws.read_encode (laws.regular spelled) inside rows written
      exact parse_eq_ok.mpr ⟨_, back⟩
  refine ⟨taken, names, blob, split, spelled, named, written, by omega, again, ?_⟩
  rw [again]
  exact row_eq_iff named

end SignatureKind

namespace Signature

open SignatureReader SignatureKind

def methodKind : SignatureKind MethodSig where
  Spelled := MethodSig.Spelled
  Regular := MethodSig.Regular
  depth := MethodSig.depth
  tokens := MethodSig.tokens
  read := method
  encode := encodeMethod

def fieldKind : SignatureKind TypeSig where
  Spelled t bytes names := ∃ own, bytes = SignatureHeader.field :: own ∧ t.Spelled own names
  Regular := TypeSig.Regular
  depth := TypeSig.depth
  tokens := TypeSig.tokens
  read := field
  encode := encodeField

def localsKind : SignatureKind (List TypeSig) where
  Spelled ts bytes names := ∃ count own, bytes = SignatureHeader.locals :: (count ++ own) ∧ ts.length ≤ maxLocals ∧
    Holds count ts.length ∧ TypeSig.AllSpelled ts own names
  Regular ts := ts.length ≤ maxLocals ∧ TypeSig.AllRegular ts
  depth := TypeSig.depthOfAll
  tokens := TypeSig.tokensOfAll
  read := locals
  encode := encodeLocals

theorem methodLaws : methodKind.Laws where
  names := MethodSig.Spelled.names
  regular := MethodSig.Spelled.regular
  consumes := consumes_methodWith (consumes_typeWithin _)
  reads spelled inside := reads_method spelled inside
  leaves := leaves_encodeMethod
  spelled := spelled_of_encodeMethod

theorem fieldLaws : fieldKind.Laws where
  names := by
    rintro t bytes names ⟨own, rfl, spelled⟩
    exact spelled.names
  regular := by
    rintro t bytes names ⟨own, rfl, spelled⟩
    exact spelled.regular
  consumes := by
    apply Consumes.byte.bind
    rintro _ header rfl
    apply Consumes.check
    intro own
    apply (consumes_typeWithin _).mono
    rintro taken t ⟨names, spelled, inside⟩
    have same : header = SignatureHeader.field := by simpa using own
    exact ⟨names, ⟨taken, by rw [same]; rfl, spelled⟩, inside⟩
  reads := by
    rintro t bytes names ⟨own, rfl, spelled⟩ inside position
    exact reads_byte_bind (reads_type spelled inside _)
  leaves := by
    rintro t bytes names ⟨own, rfl, spelled⟩
    exact (leaves_encodeType spelled).cons _
  spelled := by
    intro t bytes h regular rows
    rcases cons_eq_ok.mp h with ⟨own, written, rfl⟩
    rcases spelled_of_encodeType written regular rows with ⟨names, spelled⟩
    exact ⟨names, own, rfl, spelled⟩

theorem localsLaws : localsKind.Laws where
  names := by
    rintro ts bytes names ⟨count, own, rfl, -, -, spelled⟩
    exact spelled.names
  regular := by
    rintro ts bytes names ⟨count, own, rfl, few, -, spelled⟩
    exact ⟨few, spelled.regular⟩
  consumes := by
    apply Consumes.byte.bind
    rintro _ header rfl
    apply Consumes.check
    intro own
    apply consumes_compressed.bind
    intro countBytes count held
    apply Consumes.check
    intro few
    apply ((consumes_typeWithin _).times _).mono
    rintro taken ts ⟨rfl, all⟩
    rcases allSpelled_of_accepted all with ⟨names, spelled, inside⟩
    have same : header = SignatureHeader.locals := by simpa using own
    exact ⟨names, ⟨countBytes, taken, by rw [same]; rfl, Nat.not_lt.mp few, held, spelled⟩, inside⟩
  reads := by
    rintro ts bytes names ⟨count, own, rfl, few, held, spelled⟩ inside position
    have types := (reads_types spelled inside (position + 1 + count.length)).times
    apply reads_byte_bind
    apply (reads_of_holds held _).bind
    simp only [Nat.not_lt.mpr few, ↓reduceIte]
    exact types
  leaves := by
    rintro ts bytes names ⟨count, own, rfl, few, held, spelled⟩
    rcases held.within with ⟨front, hfront, short⟩
    rcases leaves_encodeTypes spelled with ⟨back, hback, room⟩
    refine ⟨SignatureHeader.locals :: front ++ back, ?_, ?_⟩
    · change encodeLocals ts = _
      unfold encodeLocals
      rw [hfront, ok_bind, hback]
      rfl
    · simp only [List.length_cons, List.length_append]
      omega
  spelled := by
    rintro ts bytes h ⟨few, regular⟩ rows
    rcases bind_eq_ok.mp h with ⟨count, counted, h⟩
    rcases bind_eq_ok.mp h with ⟨own, written, h⟩
    rcases allSpelled_of_encodeTypes written regular rows with ⟨names, spelled⟩
    exact ⟨names, count, own, (pure_eq_ok.mp h).symm, few, holds_of_compressed counted, spelled⟩

/-- Regular signatures whose types nest no deeper than the reader goes, and whose tokens have rows, are read back as they
    were, up to the last byte. -/
theorem read_undoes_encode (blob : Bytes) :
    (∀ m : MethodSig, m.Regular → m.depth ≤ maxTypeNesting → (∀ token ∈ m.tokens, token.row ≠ 0) → encodeMethod m = .ok blob →
      method (.start blob) = .ok m ⟨blob.length, []⟩) ∧
    (∀ t : TypeSig, t.Regular → t.depth ≤ maxTypeNesting → (∀ token ∈ t.tokens, token.row ≠ 0) → encodeField t = .ok blob →
      field (.start blob) = .ok t ⟨blob.length, []⟩) ∧
    (∀ ts : List TypeSig, TypeSig.AllRegular ts → ts.length ≤ maxLocals → TypeSig.depthOfAll ts ≤ maxTypeNesting →
      (∀ token ∈ TypeSig.tokensOfAll ts, token.row ≠ 0) → encodeLocals ts = .ok blob →
        locals (.start blob) = .ok ts ⟨blob.length, []⟩) := by
  refine ⟨?_, ?_, ?_⟩
  · intro m regular inside rows h
    exact methodLaws.read_encode regular inside rows h
  · intro t regular inside rows h
    exact fieldLaws.read_encode regular inside rows h
  · intro ts regular few inside rows h
    exact localsLaws.read_encode ⟨few, regular⟩ inside rows h

/-- A generic method with a variable argument list, and with types of all kinds in it. -/
def nested : MethodSig where
  hasThis := true
  explicitThis := false
  convention := MethodSig.variadic
  typeParameters := 2
  returns := .byReference (.typeParameter 0)
  parameters := [.generic (.classType (.ofRow .typeRef 3)) [.methodParameter 1, .vector (.primitive .string)]]
  extra := [.array (.primitive .int32) ⟨2, [3], [0, -1]⟩,
    .function ⟨false, false, 0, 0, .primitive .void, [.modified true (.ofRow .typeSpec 5) (.primitive .uint8)], []⟩]

def nestedBlob : Bytes :=
  [0x35, 2, 3, 0x10, 0x13, 0, 0x15, 0x12, 0x0D, 2, 0x1E, 1, 0x1D, 0x0E, 0x41, 0x14, 8, 2, 1, 3, 2, 0, 0x7F, 0x1B, 0, 1, 1, 0x1F, 0x16, 5]

theorem read_undoes_encode_nested : encodeMethod nested = .ok nestedBlob ∧
    method (.start nestedBlob) = .ok nested ⟨nestedBlob.length, []⟩ := by
  have shape : (⟨2, [3], [0, -1]⟩ : ArrayShape).Regular := ⟨by decide, by decide, by decide⟩
  have regular : nested.Regular := by
    simp [nested, MethodSig.Regular, TypeSig.Regular, TypeSig.AllRegular, TypeSig.isGenericBase, shape]
  have written : encodeMethod nested = .ok nestedBlob := by decide +kernel
  exact ⟨written, (read_undoes_encode nestedBlob).1 nested regular (by decide) (by decide) written⟩

/-- Every accepted signature is written again in no more bytes than were read, and what is written has the same value,
    unless the signature names a row that a token cannot hold. -/
theorem accepted_rewritten (data : Bytes) (c : Cursor) :
    (∀ m, method (.start data) = .ok m c →
      ∃ taken names blob, data = taken ++ c.rest ∧ methodKind.Rewritten m taken names blob) ∧
    (∀ t, field (.start data) = .ok t c →
      ∃ taken names blob, data = taken ++ c.rest ∧ fieldKind.Rewritten t taken names blob) ∧
    (∀ ts, locals (.start data) = .ok ts c →
      ∃ taken names blob, data = taken ++ c.rest ∧ localsKind.Rewritten ts taken names blob) := by
  refine ⟨?_, ?_, ?_⟩
  · intro m run
    exact methodLaws.rewritten run
  · intro t run
    exact fieldLaws.rewritten run
  · intro ts run
    exact localsLaws.rewritten run

/-- A row in four bytes, which one byte could hold. -/
theorem accepted_rewritten_wide : ∃ names blob, fieldKind.Rewritten (.classType (.ofRow .typeDef 1)) [0x06, 0x12, 0xC0, 0, 0, 4] names blob := by
  have run : field (.start [0x06, 0x12, 0xC0, 0, 0, 4]) = .ok (.classType (.ofRow .typeDef 1)) ⟨6, []⟩ := by rfl
  rcases (accepted_rewritten _ _).2.1 _ run with ⟨taken, names, blob, split, rewritten⟩
  rw [List.append_nil] at split
  exact ⟨names, blob, split ▸ rewritten⟩

/-- The row `2 ^ 24` has a token without a row, which is refused where it is written, and the next row has the token of the
    first one. -/
theorem accepted_row_lost :
    parseField [0x06, 0x12, 0xC4, 0, 0, 0] = .ok (.classType (.ofRow .typeDef 0)) ∧
      encodeField (.classType (.ofRow .typeDef 0)) = .ok [0x06, 0x12, 0] ∧
        parseField [0x06, 0x12, 0] = .error (.malformed .nullTypeToken) ∧
          parseField [0x06, 0x12, 0xC4, 0, 0, 4] = parseField [0x06, 0x12, 4] := by
  decide +kernel

end Signature

end CilWeaver
