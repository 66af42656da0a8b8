import CilWeaver.Debug.CodeView
import CilWeaver.Image.Root
import CilWeaver.Proofs.Steps
import Mathlib.Data.List.TakeWhile

/-!
What a reader answers, whatever it reads. Texts that end at a zero byte have no zero character.
-/

namespace CilWeaver

open Step

namespace Utf8

theorem toNat_of_valid {n : Nat} (valid : n.isValidChar) : (Char.ofNat n).toNat = n := by
  unfold Char.ofNat
  rw [dif_pos valid]
  simp [Char.ofNatAux, Char.toNat]

theorem ofNat_ne_nul {n : Nat} (valid : n.isValidChar) (pos : n ≠ 0) : Char.ofNat n ≠ '\x00' := by
  intro same
  have number := congrArg Char.toNat same
  rw [toNat_of_valid valid] at number
  exact pos number

theorem assemble_two_ne_nul {a b : UInt8} (lead : 0xC2 ≤ a ∧ a ≤ 0xDF) : assemble (a.toNat % 32) [b] ≠ '\x00' := by
  rw [UInt8.le_iff_toNat_le, UInt8.le_iff_toNat_le] at lead
  change 194 ≤ a.toNat ∧ a.toNat ≤ 223 at lead
  apply ofNat_ne_nul
  · unfold Nat.isValidChar
    simp only [List.foldl_cons, List.foldl_nil]
    omega
  · simp only [List.foldl_cons, List.foldl_nil]
    omega

theorem assemble_three_ne_nul {a b c : UInt8} (lead : 0xE0 ≤ a ∧ a ≤ 0xEF) (second : continuesThree a b = true) :
    assemble (a.toNat % 16) [b, c] ≠ '\x00' := by
  have low : a = 0xE0 → 160 ≤ b.toNat ∧ b.toNat ≤ 191 := by
    rintro rfl
    simpa [continuesThree, UInt8.le_iff_toNat_le] using second
  have surrogate : a = 0xED → b.toNat ≤ 159 ∧ 128 ≤ b.toNat := by
    rintro rfl
    have bounds : 128 ≤ b.toNat ∧ b.toNat ≤ 159 := by simpa [continuesThree, UInt8.le_iff_toNat_le] using second
    exact ⟨bounds.2, bounds.1⟩
  rw [UInt8.le_iff_toNat_le, UInt8.le_iff_toNat_le] at lead
  change 224 ≤ a.toNat ∧ a.toNat ≤ 239 at lead
  rw [← UInt8.toNat_inj] at low surrogate
  change a.toNat = 224 → _ at low
  change a.toNat = 237 → _ at surrogate
  apply ofNat_ne_nul
  · unfold Nat.isValidChar
    simp only [List.foldl_cons, List.foldl_nil]
    omega
  · simp only [List.foldl_cons, List.foldl_nil]
    omega

theorem assemble_four_ne_nul {a b c d : UInt8} (lead : 0xF0 ≤ a ∧ a ≤ 0xF4) (second : continuesFour a b = true) :
    assemble (a.toNat % 8) [b, c, d] ≠ '\x00' := by
  have low : a = 0xF0 → 144 ≤ b.toNat ∧ b.toNat ≤ 191 := by
    rintro rfl
    simpa [continuesFour, UInt8.le_iff_toNat_le] using second
  have high : a = 0xF4 → 128 ≤ b.toNat ∧ b.toNat ≤ 143 := by
    rintro rfl
    simpa [continuesFour, UInt8.le_iff_toNat_le] using second
  rw [UInt8.le_iff_toNat_le, UInt8.le_iff_toNat_le] at lead
  change 240 ≤ a.toNat ∧ a.toNat ≤ 244 at lead
  rw [← UInt8.toNat_inj] at low high
  change a.toNat = 240 → _ at low
  change a.toNat = 244 → _ at high
  apply ofNat_ne_nul
  · unfold Nat.isValidChar
    simp only [List.foldl_cons, List.foldl_nil]
    omega
  · simp only [List.foldl_cons, List.foldl_nil]
    omega

theorem nul_mem_of_cons (front : Bytes) {done : List Char} {c : Char} {rest : Bytes} (other : c ≠ '\x00')
    (h : '\x00' ∈ c :: done ∨ 0 ∈ rest) : '\x00' ∈ done ∨ 0 ∈ front ++ rest := by
  rcases h with member | member
  · exact .inl ((List.mem_cons.mp member).resolve_left other.symm)
  · exact .inr (List.mem_append_right front member)

/-- Only a zero byte is decoded to a zero character. -/
theorem nul_mem_of_decodeFrom {index : Nat} {done text : List Char} {bytes : Bytes}
    (h : decodeFrom index done bytes = .ok text) (nul : '\x00' ∈ text) : '\x00' ∈ done ∨ 0 ∈ bytes := by
  fun_induction decodeFrom index done bytes with
  | case1 =>
    cases h
    exact .inl (List.mem_reverse.mp nul)
  | case2 index done a rest ascii ih =>
    by_cases zero : a = 0
    · exact .inr (List.mem_cons.mpr (.inl zero.symm))
    · have small : a.toNat < 128 := UInt8.lt_iff_toNat_lt.mp ascii
      have pos : a.toNat ≠ 0 := fun none => zero (UInt8.toNat_inj.mp none)
      have valid : a.toNat.isValidChar := .inl (by omega)
      exact nul_mem_of_cons [a] (ofNat_ne_nul valid pos) (ih h)
  | case5 index done a ascii lead b rest second ih =>
    exact nul_mem_of_cons [a, b] (assemble_two_ne_nul lead) (ih h)
  | case10 index done a ascii two lead b second c rest third ih =>
    have second' : continuesThree a b = true := by simpa using second
    exact nul_mem_of_cons [a, b, c] (assemble_three_ne_nul lead second') (ih h)
  | case17 index done a ascii two three lead b second c third d rest fourth ih =>
    have second' : continuesFour a b = true := by simpa using second
    exact nul_mem_of_cons [a, b, c, d] (assemble_four_ne_nul lead second') (ih h)
  | _ => cases h

theorem nul_notMem_of_decode {bytes : Bytes} {text : List Char} (h : decode bytes = .ok text) (nonzero : 0 ∉ bytes) :
    '\x00' ∉ text := by
  intro nul
  rcases nul_mem_of_decodeFrom h nul with done | zero
  · exact absurd done List.not_mem_nil
  · exact nonzero zero

theorem decode_of_decode? {bytes : Bytes} {text : List Char} (h : decode? bytes = some text) : decode bytes = .ok text := by
  unfold decode? at h
  cases decoded : decode bytes with
  | ok chars =>
    rw [decoded] at h
    cases h
    rfl
  | error fault =>
    rw [decoded] at h
    cases h

theorem zero_notMem_takeWhile (bytes : Bytes) : 0 ∉ bytes.takeWhile (· != 0) := by
  intro zero
  have kept := List.mem_takeWhile_imp zero
  exact absurd kept (by decide)

end Utf8

namespace Outcome

variable {α β ε : Type}

/-- Whatever comes out satisfies `p`. -/
def Answers (x : Except ε α) (p : α → Prop) : Prop := ∀ a, x = .ok a → p a

namespace Answers

variable {p : α → Prop} {q : β → Prop}

theorem pure {a : α} (holds : p a) : Answers (Pure.pure a : Except ε α) p := by
  intro b h
  cases pure_eq_ok.mp h
  exact holds

theorem error {e : ε} : Answers (.error e) p := by
  intro a h
  cases h

theorem bind_of {x : Except ε α} {f : α → Except ε β} (first : Answers x p) (second : ∀ a, p a → Answers (f a) q) :
    Answers (x >>= f) q := by
  intro b h
  obtain ⟨a, one, two⟩ := bind_eq_ok.mp h
  exact second a (first a one) b two

theorem bind {x : Except ε α} {f : α → Except ε β} (second : ∀ a, Answers (f a) q) : Answers (x >>= f) q :=
  bind_of (fun _ _ => True.intro) fun a _ => second a

theorem ite {condition : Prop} [Decidable condition] {x y : Except ε α} (first : condition → Answers x p)
    (second : ¬ condition → Answers y p) : Answers (if condition then x else y) p := by
  by_cases holds : condition
  · rw [if_pos holds]
    exact first holds
  · rw [if_neg holds]
    exact second holds

/-- A check does not matter for what comes out. -/
theorem check {condition : Prop} [Decidable condition] {e : ε} {f : PUnit → Except ε α} {x : Except ε α}
    (others : Answers x p) : Answers (if condition then (.error e : Except ε PUnit) >>= f else x) p :=
  ite (fun _ => error) fun _ => others

theorem mapM {f : α → Except ε β} (each : ∀ a, Answers (f a) q) (items : List α) :
    Answers (items.mapM f) fun found => ∀ b ∈ found, q b := by
  intro found h b member
  obtain ⟨a, -, own⟩ := forall₂_of_mem (mapM_eq_ok.mp h).flip member
  exact each a b own

theorem length_mapM (f : α → Except ε β) (items : List α) :
    Answers (items.mapM f) fun found => found.length = items.length := by
  intro found h
  exact (mapM_eq_ok.mp h).length_eq.symm

theorem option_mapM {f : α → Except ε β} (each : ∀ a, Answers (f a) q) (item? : Option α) :
    Answers (item?.mapM f) fun found? => ∀ b ∈ found?, q b := by
  intro found? h b member
  cases item? with
  | none =>
    cases pure_eq_ok.mp h
    cases member
  | some a =>
    change (f a >>= fun b => Pure.pure (some b)) = _ at h
    obtain ⟨b', own, last⟩ := bind_eq_ok.mp h
    cases pure_eq_ok.mp last
    cases member
    exact each a b own

end Answers

end Outcome

namespace Reader

variable {α β : Type}

/-- Whatever the reader answers satisfies `p`. -/
def Answers (r : Reader α) (p : α → Prop) : Prop := ∀ c a c', r c = .ok a c' → p a

namespace Answers

variable {p : α → Prop} {q : β → Prop}

theorem pure {a : α} (holds : p a) : Answers (Pure.pure a) p := by
  intro c b c' run
  obtain ⟨rfl, -⟩ := pure_eq_ok.mp run
  exact holds

theorem bind {r : Reader α} {f : α → Reader β} (second : ∀ a, (f a).Answers q) : Answers (r >>= f) q := by
  intro c b c' run
  obtain ⟨a, middle, -, two⟩ := bind_eq_ok.mp run
  exact second a middle b c' two

theorem bind_of {r : Reader α} {f : α → Reader β} (first : r.Answers p) (second : ∀ a, p a → (f a).Answers q) :
    Answers (r >>= f) q := by
  intro c b c' run
  obtain ⟨a, middle, one, two⟩ := bind_eq_ok.mp run
  exact second a (first c a middle one) middle b c' two

theorem malformed (defect : Defect) : Answers (Reader.malformed defect) p := by
  intro c a c' run
  exact absurd run throw_ne_ok

theorem malformed_bind (defect : Defect) {f : α → Reader β} : Answers (Reader.malformed defect >>= f) q :=
  bind_of (malformed defect) fun _ (impossible : False) => impossible.elim

theorem ite {condition : Prop} [Decidable condition] {r r' : Reader α} (first : condition → r.Answers p)
    (second : ¬ condition → r'.Answers p) : Answers (if condition then r else r') p := by
  by_cases holds : condition
  · rw [if_pos holds]
    exact first holds
  · rw [if_neg holds]
    exact second holds

/-- A check does not matter for the answer. -/
theorem check {condition : Prop} [Decidable condition] {defect : Defect} {f : Unit → Reader α}
    {r : Reader α} (others : r.Answers p) : Answers (if condition then Reader.malformed defect >>= f else r) p :=
  ite (fun _ => malformed_bind defect) fun _ => others

theorem mapM {f : α → Reader β} (each : ∀ a, (f a).Answers q) (items : List α) :
    Answers (items.mapM f) fun found => ∀ b ∈ found, q b := by
  induction items with
  | nil =>
    rw [List.mapM_nil]
    exact pure fun _ member => absurd member List.not_mem_nil
  | cons a items ih =>
    rw [List.mapM_cons]
    refine bind_of (each a) fun b first => bind_of ih fun bs others => pure ?_
    intro b' member
    rcases List.mem_cons.mp member with rfl | member
    · exact first
    · exact others b' member

theorem timesFrom {r : Reader α} (done : List α) (count : Nat) :
    Answers (Reader.timesFrom r done count) fun found => found.length = done.length + count := by
  induction count generalizing done with
  | zero => exact pure List.length_reverse
  | succ count ih =>
    refine bind fun a => ?_
    intro c found c' run
    have length := ih (a :: done) c found c' run
    rw [List.length_cons] at length
    omega

theorem parse {r : Reader α} (answers : r.Answers p) {data : Bytes} {a : α} (h : r.parse data = .ok a) : p a := by
  unfold Reader.parse EStateM.run at h
  cases run : r (.start data) with
  | ok b c =>
    simp only [run] at h
    cases h
    exact answers _ _ _ run
  | error e c =>
    simp only [run] at h
    cases h

end Answers

theorem answers_zeroTerminated : Answers zeroTerminated fun text => '\x00' ∉ text.toList := by
  intro c text c' run
  unfold zeroTerminated at run
  dsimp only at run
  cases decoded : Utf8.decode (c.rest.takeWhile (· != 0)) with
  | ok chars =>
    simp only [decoded] at run
    cases run
    rw [String.toList_ofList]
    exact Utf8.nul_notMem_of_decode decoded (Utf8.zero_notMem_takeWhile _)
  | error fault =>
    simp only [decoded] at run
    cases run

end Reader

open Reader

theorem Root.nul_notMem_of_parse {data : Bytes} {root : Root} (h : Root.parse data = .ok root) :
    '\x00' ∉ root.version.toList := by
  have read : (Root.read data.length).Answers fun root => '\x00' ∉ root.version.toList := by
    unfold Root.read
    refine .bind fun signature => .check (.bind fun major => .bind fun minor => .check (.bind fun _ => .bind fun size =>
      .check (.bind fun field => ?_)))
    cases decoded : Utf8.decode? (field.takeWhile (· != 0)) with
    | none => exact .malformed _
    | some version =>
      refine .bind fun flags => .bind fun count => .check (.bind fun streams => .pure ?_)
      rw [String.toList_ofList]
      apply Utf8.nul_notMem_of_decode (Utf8.decode_of_decode? decoded)
      exact Utf8.zero_notMem_takeWhile field
  exact read.parse h

theorem CodeViewRecord.nul_notMem_of_parse {data : Bytes} {record : CodeViewRecord}
    (h : CodeViewRecord.parse data = .ok record) : '\x00' ∉ record.path.toList := by
  have read : CodeViewRecord.read.Answers fun record => '\x00' ∉ record.path.toList := by
    unfold CodeViewRecord.read
    exact .bind fun found => .check (.bind fun id => .bind fun age => .bind_of answers_zeroTerminated fun path noNul => .pure noNul)
  exact read.parse h

end CilWeaver
