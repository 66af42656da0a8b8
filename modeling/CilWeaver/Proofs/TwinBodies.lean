import CilWeaver.Proofs.Bodies
import CilWeaver.Proofs.ParallelWriters
import CilWeaver.Proofs.StreamRanges

/-!
Bodies that differ in some bytes of their code, written side by side. Code that loads a constant first is checked, laid
out and encoded alike whatever the constant is, and only the four bytes of the constant are its own. The headers,
sections and addresses of the bodies are the same, and so are all failures.
-/

namespace CilWeaver

open Step

namespace Code

/-- The bytes of the instruction that loads a constant. -/
def constantBytes (n : Int32) : Bytes := 0x20 :: leIntBytes 4 n.toInt

theorem check_constant (n n' : Int32) (rest : List Instruction) : check (.ldcI4 n' :: rest) = check (.ldcI4 n :: rest) := rfl

/-- A round of promotion for the code behind a constant. -/
def promoteBehind (rest : List Instruction) : List Instruction :=
  List.zipWith (widen (0 :: offsetsFrom 5 rest).toArray) (offsetsFrom 5 rest).tail rest

theorem promoteOnce_constant (n : Int32) (rest : List Instruction) :
    promoteOnce (.ldcI4 n :: rest) = .ldcI4 n :: promoteBehind rest := by
  have behind : offsetsFrom 5 rest = 5 :: (offsetsFrom 5 rest).tail := offsetsFrom_eq_cons 5 rest
  change List.zipWith (widen (0 :: offsetsFrom 5 rest).toArray) (offsetsFrom 5 rest) (.ldcI4 n :: rest) = _
  rw [promoteBehind, behind]
  rfl

theorem promoteRounds_constant (rounds : Nat) (rest : List Instruction) :
    ∃ rest', ∀ n, promoteRounds rounds (.ldcI4 n :: rest) = .ldcI4 n :: rest' := by
  induction rounds generalizing rest with
  | zero => exact ⟨rest, fun _ => rfl⟩
  | succ rounds ih =>
    have same (n : Int32) : (promoteOnce (.ldcI4 n :: rest) == .ldcI4 n :: rest) = (promoteBehind rest == rest) := by
      rw [promoteOnce_constant, Bool.eq_iff_iff, beq_iff_eq, beq_iff_eq, List.cons.injEq]
      exact ⟨fun h => h.2, fun h => ⟨rfl, h⟩⟩
    by_cases final : (promoteBehind rest == rest) = true
    · refine ⟨rest, fun n => ?_⟩
      unfold promoteRounds
      dsimp only
      rw [same, if_pos final]
    · obtain ⟨rest', others⟩ := ih (promoteBehind rest)
      refine ⟨rest', fun n => ?_⟩
      unfold promoteRounds
      dsimp only
      rw [same, if_neg final, promoteOnce_constant]
      exact others n

/-- The code behind a constant is promoted alike for all constants. -/
theorem promote_constant (rest : List Instruction) : ∃ rest', ∀ n, promote (.ldcI4 n :: rest) = .ldcI4 n :: rest' :=
  promoteRounds_constant (rest.length + 1) rest

section

variable {σ : Type} (literal : String → EStateM Error σ Nat) (context : String)

theorem encodeInstructions_behind (offsets : Array Nat) (done : List Bytes) (ends : List Nat) (code : List Instruction) :
    encodeInstructions literal context offsets done ends code =
      (done.reverse.flatten ++ ·) <$> encodeInstructions literal context offsets [] ends code := by
  induction code generalizing done ends with
  | nil =>
    cases ends <;>
      · unfold encodeInstructions
        rw [map_pure, List.reverse_nil, List.flatten_nil, List.append_nil]
  | cons i code ih =>
    cases ends with
    | nil =>
      unfold encodeInstructions
      rw [map_pure, List.reverse_nil, List.flatten_nil, List.append_nil]
    | cons next ends =>
      unfold encodeInstructions
      rw [map_bind]
      refine bind_congr fun operand => ?_
      rw [ih (_ :: done), ih [_], ← comp_map]
      congr 1
      funext bytes
      simp only [Function.comp, List.reverse_cons, List.reverse_nil, List.nil_append, List.flatten_append,
        List.flatten_singleton, List.append_assoc]

/-- An encoded body with the instruction that loads a constant in front of its bytes. -/
def behindConstant (n : Int32) (e : EncodedBody) : EncodedBody := { e with bytes := constantBytes n ++ e.bytes }

/-- What is encoded behind a constant does not depend on it. -/
theorem encode_constant (rest : List Instruction) : ∃ behind : EStateM Error σ EncodedBody,
    ∀ n, Code.encode literal context (.ldcI4 n :: rest) = behindConstant n <$> behind := by
  obtain ⟨rest', promoted⟩ := promote_constant rest
  have layout (n : Int32) : offsets (.ldcI4 n :: rest') = 0 :: offsetsFrom 5 rest' := rfl
  have ends : offsetsFrom 5 rest' = 5 :: (offsetsFrom 5 rest').tail := offsetsFrom_eq_cons 5 rest'
  cases checked : check (.ldcI4 0 :: rest) with
  | error fault =>
    refine ⟨throw (.emission context fault), fun n => ?_⟩
    unfold Code.encode
    rw [check_constant 0, checked]
    rfl
  | ok result =>
    refine ⟨do
      let bytes ← encodeInstructions literal context (0 :: offsetsFrom 5 rest').toArray [] (offsetsFrom 5 rest').tail rest'
      return ⟨bytes, 0 :: offsetsFrom 5 rest', (rest.zip rest').countP fun pair => pair.1.opcode != pair.2.opcode⟩,
      fun n => ?_⟩
    unfold Code.encode
    rw [check_constant 0, checked]
    dsimp only
    have tail : (0 :: offsetsFrom 5 rest').tail = 5 :: (offsetsFrom 5 rest').tail := ends
    rw [promoted, layout, tail, encodeInstructions]
    change (encodeInstructions literal context _ [constantBytes n] _ rest' >>= _) = _
    rw [encodeInstructions_behind, map_bind, bind_map_left]
    refine bind_congr fun bytes => ?_
    rw [map_pure]
    rfl

end

end Code

/-! Bodies around such code -/

namespace RawBody

/-- Bodies with code of one size fail alike, or have the same bytes around their code. -/
theorem encode_alike (b : RawBody) {code : Bytes} (same : code.length = b.code.length) (start : Nat) :
    (∃ defect, b.encode start = .error defect ∧ { b with code }.encode start = .error defect) ∨
    ∃ front back, front.length = (StoredBody.ofRaw b 0).headerSize ∧ b.encode start = .ok (front ++ (b.code ++ back)) ∧
      { b with code }.encode start = .ok (front ++ (code ++ back)) := by
  have tiny : { b with code }.fitsTiny = b.fitsTiny := by
    unfold fitsTiny
    rw [same]
  have header : { b with code }.fatHeader = b.fatHeader := by
    unfold fatHeader
    rw [same]
  unfold encode StoredBody.ofRaw
  simp only [tiny, header, same]
  by_cases fits : b.fitsTiny = true
  · simp only [fits, ↓reduceIte]
    refine .inr ⟨[UInt8.ofNat (4 * b.code.length + tinyFormat)], [], rfl, ?_, ?_⟩
    · rw [List.append_nil, List.singleton_append]
    · rw [List.append_nil, List.singleton_append]
  simp only [fits, Bool.false_eq_true, ↓reduceIte]
  by_cases large : 2 ^ 32 ≤ b.code.length
  · simp only [large, ↓reduceIte]
    exact .inl ⟨_, rfl, rfl⟩
  simp only [large, ↓reduceIte]
  by_cases none : b.clauses.isEmpty = true
  · simp only [none, ↓reduceIte]
    refine .inr ⟨b.fatHeader, [], StoredBody.length_fatHeader b, ?_, ?_⟩
    · rw [List.append_nil]
    · rw [List.append_nil]
  simp only [none, Bool.false_eq_true, ↓reduceIte]
  cases made : clauseSection b.clauses with
  | error defect => exact .inl ⟨defect, rfl, rfl⟩
  | ok sections =>
    refine .inr ⟨b.fatHeader, zeros (padding 4 (start + (b.fatHeader ++ b.code).length)) ++ sections,
      StoredBody.length_fatHeader b, ?_, ?_⟩
    · simp only [List.append_assoc]
      rfl
    · simp only [List.length_append, same, List.append_assoc]
      rfl

end RawBody

/-- The bytes of two bodies that are stored alike: the code of the first one and of the second one differ in some of
    the places that the code of the first one has. -/
def StoredAlike (places : Bytes → Nat → Prop) (bytes bytes' : Bytes) : Prop :=
  ∃ stored, (∀ more, StoredBody.parse (bytes ++ more) = .ok stored) ∧
    DifferAt (fun i => ∃ k, places stored.code k ∧ i = stored.headerSize + k) bytes bytes'

theorem RawBody.storedAlike {b : RawBody} {code : Bytes} {places : Bytes → Nat → Prop} {start : Nat} (aligned : start % 4 = 0)
    (kinds : ∀ c ∈ b.clauses, c.HasKind) (differ : DifferAt (places b.code) b.code code) :
    (∃ defect, b.encode start = .error defect ∧ { b with code }.encode start = .error defect) ∨
    ∃ bytes bytes', b.encode start = .ok bytes ∧ { b with code }.encode start = .ok bytes' ∧
      StoredAlike places bytes bytes' := by
  rcases b.encode_alike differ.length start with failed | ⟨front, back, header, written, written'⟩
  · exact .inl failed
  · refine .inr ⟨_, _, written, written', .ofRaw b (front ++ (b.code ++ back)).length, fun more => ?_, ?_⟩
    · exact StoredBody.parse_encode aligned kinds written more
    · refine ((differ.append_same back).same_append front).mono fun i among => ?_
      obtain ⟨k, place, rfl⟩ := among
      exact ⟨k, place, congrArg (· + k) header⟩

/-- A writer to which code is nothing. -/
def IgnoresCode {α : Type} (w : ModuleWriter α) : Prop := ∀ il, Blind (fun d => { d with il }) w

/-- Drafts with the given code in the first run and in the second one, and the same otherwise. -/
def Pairing.codes : Pairing (Bytes × Bytes) ModuleDraft where
  Related g d d' := d.il = g.1 ∧ d' = { d with il := g.2 }
  Faithful := True
  Stops _ _ := False
  never _ _ _ := id

namespace IgnoresCode

variable {α β : Type}

theorem pure (a : α) : IgnoresCode (Pure.pure a : ModuleWriter α) := fun _ => .pure a

theorem throw (e : Error) : IgnoresCode (MonadExcept.throw e : ModuleWriter α) := fun _ => .throw e

theorem bind {x : ModuleWriter α} {f : α → ModuleWriter β} (first : IgnoresCode x) (second : ∀ a, IgnoresCode (f a)) :
    IgnoresCode (x >>= f) := fun il => (first il).bind fun a => second a il

theorem check (context : String) (result : Except EmissionFault Unit) : IgnoresCode (ModuleWriter.check context result) := by
  unfold ModuleWriter.check
  cases result with
  | ok => exact pure ()
  | error fault => exact throw _

theorem addLiteral (text : String) : IgnoresCode (ModuleWriter.addLiteral text) := by
  intro il d
  unfold ModuleWriter.addLiteral ModuleWriter.onPart
  cases UserStringHeapBuilder.add text d.userStrings with
  | ok a s => rfl
  | error e s => rfl

theorem encodeOperand (context : String) (offsets : Array Nat) (next : Nat) (kind : OperandKind) (operand : Operand) :
    IgnoresCode (Code.encodeOperand ModuleWriter.addLiteral context offsets next kind operand) := by
  cases operand with
  | string text =>
    refine (addLiteral text).bind fun index => ?_
    by_cases large : 0xFFFFFF < index
    · rw [if_pos large]
      exact (throw _).bind fun _ => pure _
    · rw [if_neg large]
      exact (pure _).bind fun _ => pure _
  | _ => exact pure _

theorem encodeInstructions (context : String) (offsets : Array Nat) (done : List Bytes) (ends : List Nat)
    (code : List Instruction) :
    IgnoresCode (Code.encodeInstructions ModuleWriter.addLiteral context offsets done ends code) := by
  induction code generalizing done ends with
  | nil =>
    unfold Code.encodeInstructions
    cases ends with
    | nil => exact pure _
    | cons next ends => exact pure _
  | cons i code ih =>
    cases ends with
    | nil => exact pure _
    | cons next ends =>
      unfold Code.encodeInstructions
      exact (encodeOperand context offsets next _ _).bind fun operand => ih _ _

theorem encode (context : String) (code : List Instruction) :
    IgnoresCode (Code.encode ModuleWriter.addLiteral context code) := by
  unfold Code.encode
  cases Code.check code with
  | error fault => exact throw _
  | ok => exact (encodeInstructions context _ _ _ _).bind fun bytes => pure _

theorem keeps {w : ModuleWriter α} (ignores : IgnoresCode w) : ModuleWriter.KeepsCode w := by
  intro d a s run
  have again := (ignores d.il).answers run
  change w d = _ at again
  rw [run] at again
  injection again with _ same
  rw [same]

theorem same {w : ModuleWriter α} (ignores : IgnoresCode w) : Pairing.codes.Same w := by
  refine fun g => ⟨fun {d d' a s} alike run => ?_, fun _ {d d' e s} alike run => ?_⟩
  · obtain ⟨code, rfl⟩ := alike
    exact .inr ⟨a, _, g, (ignores g.2).answers run, ⟨rfl, rfl⟩, (ignores.keeps d a s run).trans code, rfl⟩
  · obtain ⟨-, rfl⟩ := alike
    exact ⟨_, (ignores g.2).failures run⟩

end IgnoresCode

/-- Code that is encoded alike but for some places of its bytes. -/
def EncodesAlike (places : Bytes → Nat → Prop) (code code' : List Instruction) : Prop :=
  ∀ context g, Lockstep .codes g (Code.encode ModuleWriter.addLiteral context code)
    (Code.encode ModuleWriter.addLiteral context code') fun e e' g' =>
      g' = g ∧ e'.offsets = e.offsets ∧ DifferAt (places e.bytes) e.bytes e'.bytes

namespace EncodesAlike

theorem refl (places : Bytes → Nat → Prop) (code : List Instruction) : EncodesAlike places code code := by
  intro context g
  refine ((IgnoresCode.encode context code).same g).mono fun e e' g' holds => ?_
  obtain ⟨rfl, rfl⟩ := holds
  exact ⟨rfl, rfl, .refl _ _⟩

theorem mono {places others : Bytes → Nat → Prop} {code code' : List Instruction} (alike : EncodesAlike places code code')
    (wider : ∀ bytes i, places bytes i → others bytes i) : EncodesAlike others code code' := by
  intro context g
  refine (alike context g).mono fun e e' g' holds => ?_
  obtain ⟨rfl, offsets, differ⟩ := holds
  exact ⟨rfl, offsets, differ.mono (wider e.bytes)⟩

/-- The bytes of a constant at the start of code. -/
def InConstant (n : Int32) (code : Bytes) (i : Nat) : Prop := Code.constantBytes n <+: code ∧ 1 ≤ i ∧ i < 5

theorem constant (n n' : Int32) (rest : List Instruction) :
    EncodesAlike (InConstant n) (.ldcI4 n :: rest) (.ldcI4 n' :: rest) := by
  intro context g
  obtain ⟨behind, encodes⟩ := Code.encode_constant ModuleWriter.addLiteral context rest
  have same := (IgnoresCode.encode context (.ldcI4 n' :: rest)).same g
  have four (n : Int32) : (leIntBytes 4 n.toInt).length = 4 := length_leIntBytes 4 _
  have sizes : DifferAt (fun i => 1 ≤ i ∧ i < 5) (Code.constantBytes n) (Code.constantBytes n') := by
    refine ((DifferAt.of_length ((four n').trans (four n).symm)).same_append [0x20]).mono fun i among => ?_
    obtain ⟨j, inside, rfl⟩ := among
    rw [four] at inside
    rw [List.length_singleton]
    omega
  rw [encodes n]
  constructor
  · intro d d' e s related run
    rw [map_apply] at run
    cases ran : behind d with
    | error failure s₁ =>
      rw [ran] at run
      cases run
    | ok e₀ s₁ =>
      rw [ran] at run
      cases run
      have other : Code.encode ModuleWriter.addLiteral context (.ldcI4 n' :: rest) d = .ok (Code.behindConstant n' e₀) s := by
        rw [encodes n', map_apply, ran]
      rcases same.answers related other with ⟨_, _, -, stops⟩ | ⟨e', s', g', run', ⟨rfl, rfl⟩, related'⟩
      · exact stops.elim
      · refine .inr ⟨_, s', g', run', ⟨rfl, rfl, ?_⟩, related'⟩
        refine (sizes.append_same e₀.bytes).mono fun i among => ?_
        exact ⟨List.prefix_append _ _, among⟩
  · intro faithful d d' e s related run
    rw [map_apply] at run
    cases ran : behind d with
    | ok e₀ s₁ =>
      rw [ran] at run
      cases run
    | error failure s₁ =>
      rw [ran] at run
      cases run
      have other : Code.encode ModuleWriter.addLiteral context (.ldcI4 n' :: rest) d = .error e s := by
        rw [encodes n', map_apply, ran]
      exact same.failures faithful related other

end EncodesAlike

/-- Bodies that are the same but for the code, which is checked and encoded alike. -/
structure MethodBody.Twins (m : Module) (places : Bytes → Nat → Prop) (b b' : MethodBody) : Prop where
  others : b' = { b with code := b'.code }
  length : b'.code.length = b.code.length
  tokens : ModuleWriter.bodyTokenCheck m b' = ModuleWriter.bodyTokenCheck m b
  encodes : EncodesAlike places b.code b'.code

namespace ModuleWriter

variable {m : Module} {places : Bytes → Nat → Prop}

theorem store_alike (context : String) (b : MethodBody) {e e' : EncodedBody} (offsets : e'.offsets = e.offsets)
    (differ : DifferAt (places e.bytes) e.bytes e'.bytes) {g : Bytes × Bytes} (lengths : g.2.length = g.1.length)
    (aligned : g.1.length % 4 = 0) :
    Lockstep .codes g (store context b e) (store context b e') fun o o' g' => o' = o ∧
      ∃ bytes bytes', g' = (g.1 ++ bytes, g.2 ++ bytes') ∧ StoredAlike places bytes bytes' := by
  have kinds : ∀ c ∈ (rawOf b e).clauses, c.HasKind := by
    intro c member
    obtain ⟨r, -, rfl⟩ := List.mem_map.mp member
    exact Region.hasKind_toClause _ r
  have raw : rawOf b e' = { rawOf b e with code := e'.bytes } := by
    unfold rawOf
    rw [offsets]
  have stored := RawBody.storedAlike aligned kinds differ
  rw [← raw] at stored
  constructor
  · intro d d' o s related run
    obtain ⟨code, rfl⟩ := related
    rw [store_apply, code] at run
    rw [store_apply]
    dsimp only
    rw [lengths]
    rcases stored with ⟨defect, failed, -⟩ | ⟨bytes, bytes', written, written', alike⟩
    · rw [failed] at run
      cases run
    · rw [written] at run
      cases run
      rw [written']
      exact .inr ⟨_, _, _, rfl, ⟨offsets, bytes, bytes', rfl, alike⟩, rfl, rfl⟩
  · intro _ d d' failure s related run
    obtain ⟨code, rfl⟩ := related
    rw [store_apply, code] at run
    rw [store_apply]
    dsimp only
    rw [lengths]
    rcases stored with ⟨defect, failed, failed'⟩ | ⟨bytes, bytes', written, -, -⟩
    · rw [failed] at run
      cases run
      rw [failed']
      exact ⟨_, rfl⟩
    · rw [written] at run
      cases run

/-- Twins are written alike at aligned places. -/
theorem addBody_alike {b b' : MethodBody} (twins : b.Twins m places b') (context : String) {g : Bytes × Bytes}
    (lengths : g.2.length = g.1.length) (aligned : g.1.length % 4 = 0) :
    Lockstep .codes g (addBody m context b) (addBody m context b') fun o o' g' => o' = o ∧
      ∃ bytes bytes', g' = (g.1 ++ bytes, g.2 ++ bytes') ∧ StoredAlike places bytes bytes' := by
  have positions : b'.checkIndices m.documents.length = b.checkIndices m.documents.length := by
    rw [twins.others]
    unfold MethodBody.checkIndices MethodBody.length
    dsimp only
    rw [twins.length]
  have others (e : EncodedBody) : store context b' e = store context b e := by
    rw [twins.others]
    rfl
  rw [addBody_eq, addBody_eq, positions, twins.tokens]
  apply Lockstep.bind_same (IgnoresCode.check _ _).same
  intro _
  apply Lockstep.bind_same (IgnoresCode.check _ _).same
  intro _
  apply (twins.encodes context g).bind
  rintro e e' _ ⟨rfl, offsets, differ⟩
  rw [others]
  exact store_alike context b offsets differ lengths aligned

/-- Twins have one address, behind the code in front of them. -/
theorem addMethodBody_alike {b b' : MethodBody} (twins : b.Twins m places b') (context : String) {g : Bytes × Bytes}
    (lengths : g.2.length = g.1.length) :
    Lockstep .codes g (addMethodBody m context (some b)) (addMethodBody m context (some b')) fun a a' g' => a' = a ∧
      ∃ bytes bytes', g' = (padTo 4 g.1 ++ bytes, padTo 4 g.2 ++ bytes') ∧ a.1.toNat = (padTo 4 g.1).length ∧
        StoredAlike places bytes bytes' := by
  have padded : (padTo 4 g.2).length = (padTo 4 g.1).length := by
    unfold padTo
    rw [lengths, List.length_append, List.length_append, lengths]
  have pad : Lockstep .codes g (modify fun d : ModuleDraft => { d with il := padTo 4 d.il } : ModuleWriter Unit)
      (modify fun d : ModuleDraft => { d with il := padTo 4 d.il } : ModuleWriter Unit)
      fun _ _ g' => g' = (padTo 4 g.1, padTo 4 g.2) := by
    refine ⟨fun {d d' u s} related run => ?_, fun _ {d d' e s} _ run => ?_⟩
    · obtain ⟨code, rfl⟩ := related
      cases run
      exact .inr ⟨(), _, _, rfl, rfl, congrArg (padTo 4) code, rfl⟩
    · cases run
  have address : Lockstep .codes (padTo 4 g.1, padTo 4 g.2) (get : ModuleWriter ModuleDraft) (get : ModuleWriter ModuleDraft)
      fun d d' g' => g' = (padTo 4 g.1, padTo 4 g.2) ∧ d.il = padTo 4 g.1 ∧ d'.il = padTo 4 g.2 := by
    refine ⟨fun {d d' u s} related run => ?_, fun _ {d d' e s} _ run => ?_⟩
    · obtain ⟨code, rfl⟩ := related
      cases run
      exact .inr ⟨_, _, _, rfl, ⟨rfl, code, rfl⟩, code, rfl⟩
    · cases run
  unfold addMethodBody
  apply pad.bind
  rintro _ _ _ rfl
  apply address.bind
  rintro d d' _ ⟨rfl, code, code'⟩
  rw [code, code', padded]
  dsimp only
  apply Lockstep.ite
  · intro _
    exact .throw _
  · intro small
    have number : (UInt32.ofNat (padTo 4 g.1).length).toNat = (padTo 4 g.1).length := by
      rw [UInt32.toNat_ofNat', Nat.mod_eq_of_lt (Nat.lt_of_not_le small)]
    apply (addBody_alike twins context padded (length_padTo_mod g.1)).bind
    rintro o _ _ ⟨rfl, bytes, bytes', rfl, alike⟩
    exact .pure ⟨rfl, bytes, bytes', rfl, number, alike⟩

end ModuleWriter

end CilWeaver
