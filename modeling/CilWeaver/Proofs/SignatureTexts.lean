import CilWeaver.Proofs.Steps
import CilWeaver.Signature.Element
import CilWeaver.Signature.Text
import Mathlib

/-!
What the text of a signature shows of it, and how the text is made up. A type starts with a word, and marks follow that
stand for what is made of the type: pointers, arrays, arguments, modifiers. Words end where marks stand.
-/

namespace CilWeaver

open Outcome

/-- A vector, or an array with more dimensions than one. -/
def TypeSig.dimensioned (commas : Nat) (element : TypeSig) : TypeSig :=
  if commas = 0 then .vector element else .array element ⟨.ofNat (commas + 1), [], []⟩

mutual

/-- The type as far as its text tells. The text of a name does not tell whether it is the one of a class or of a value type,
    and the text of an array has no sizes and no lower bounds, so that one dimension alone looks like a vector. -/
def TypeSig.shown : TypeSig → TypeSig
  | .primitive kind => .primitive kind
  | .pointer t => .pointer t.shown
  | .byReference t => .byReference t.shown
  | .pinned t => .pinned t.shown
  | .vector t => .vector t.shown
  | .classType token | .valueType token => .classType token
  | .typeParameter number => .typeParameter number
  | .methodParameter number => .methodParameter number
  | .array t shape => TypeSig.dimensioned (shape.rank.toNat - 1) t.shown
  | .generic t ts => .generic t.shown (TypeSig.shownAll ts)
  | .function m => .function m.shown
  | .modified required modifier t => .modified required modifier t.shown

/-- The signature as far as its text tells: of the conventions it tells one, and nothing about the arguments beyond the declared
    parameters. -/
def MethodSig.shown : MethodSig → MethodSig
  | ⟨hasThis, explicitThis, convention, typeParameters, returns, parameters, _⟩ =>
    ⟨hasThis, explicitThis, if convention == MethodSig.variadic then MethodSig.variadic else 0, typeParameters, returns.shown,
      TypeSig.shownAll parameters, []⟩

def TypeSig.shownAll : List TypeSig → List TypeSig
  | [] => []
  | t :: ts => t.shown :: TypeSig.shownAll ts

end

section

variable {ε : Type} (name : Token → Except ε String)

mutual

theorem TypeSig.render_shown : ∀ t : TypeSig, t.shown.render name = t.render name
  | .primitive _ | .classType _ | .valueType _ | .typeParameter _ | .methodParameter _ => rfl
  | .pointer t | .byReference t | .pinned t | .vector t | .modified _ _ t => by
    simp only [TypeSig.shown, TypeSig.render, TypeSig.render_shown t]
  | .array t shape => by
    rw [TypeSig.shown, TypeSig.dimensioned]
    split
    · rename_i none
      have brackets (text : String) : text ++ "[]" = text ++ "[" ++ String.ofList [] ++ "]" := by
        rw [String.append_assoc, String.append_assoc]
        rfl
      simp only [TypeSig.render, TypeSig.render_shown t, none, List.replicate_zero, brackets]
    · rename_i more
      have rank := shape.rank.toNat_lt
      have same : (UInt32.ofNat (shape.rank.toNat - 1 + 1)).toNat - 1 = shape.rank.toNat - 1 := by
        rw [UInt32.toNat_ofNat']
        omega
      simp only [TypeSig.render, TypeSig.render_shown t, same]
  | .generic t ts => by
    simp only [TypeSig.shown, TypeSig.render, TypeSig.render_shown t, TypeSig.renderAll_shownAll ts]
  | .function m => by
    simp only [TypeSig.shown, TypeSig.render, MethodSig.render_shown m]

theorem MethodSig.render_shown : ∀ m : MethodSig, m.shown.render name = m.render name
  | ⟨_, _, convention, _, returns, parameters, _⟩ => by
    have same : ((if convention == MethodSig.variadic then MethodSig.variadic else 0) == MethodSig.variadic) =
        (convention == MethodSig.variadic) := by
      cases convention == MethodSig.variadic <;> rfl
    simp only [MethodSig.shown, MethodSig.render, TypeSig.render_shown returns, TypeSig.renderAll_shownAll parameters, same]

theorem TypeSig.renderAll_shownAll : ∀ ts : List TypeSig, TypeSig.renderAll name (TypeSig.shownAll ts) = TypeSig.renderAll name ts
  | [] => rfl
  | t :: ts => by
    simp only [TypeSig.shownAll, TypeSig.renderAll, TypeSig.render_shown t, TypeSig.renderAll_shownAll ts]

end

end

/-- What stands behind a type in the text of another one. -/
inductive TypeMark where
  | pointer
  | byReference
  | pinned
  | dimensions (commas : Nat)
  | arguments (types : List TypeSig)
  | modifier (required : Bool) (type : Token)

/-- The shown type that a mark makes of a shown type. -/
def TypeMark.apply : TypeSig → TypeMark → TypeSig
  | t, pointer => .pointer t
  | t, byReference => .byReference t
  | t, pinned => .pinned t
  | t, dimensions commas => TypeSig.dimensioned commas t
  | t, arguments types => .generic t (TypeSig.shownAll types)
  | t, modifier required type => .modified required type t

/-- The type that the text of a type starts with. -/
def TypeSig.head : TypeSig → TypeSig
  | .pointer t | .byReference t | .pinned t | .vector t | .array t _ | .generic t _ | .modified _ _ t => t.head
  | t => t

/-- What stands behind the first type in the text of a type. -/
def TypeSig.marks : TypeSig → List TypeMark
  | .pointer t => t.marks ++ [.pointer]
  | .byReference t => t.marks ++ [.byReference]
  | .pinned t => t.marks ++ [.pinned]
  | .vector t => t.marks ++ [.dimensions 0]
  | .array t shape => t.marks ++ [.dimensions (shape.rank.toNat - 1)]
  | .generic t ts => t.marks ++ [.arguments ts]
  | .modified required modifier t => t.marks ++ [.modifier required modifier]
  | _ => []

theorem TypeSig.shown_eq (t : TypeSig) : t.shown = t.marks.foldl TypeMark.apply t.head.shown := by
  cases t with
  | pointer t | byReference t | pinned t | vector t | modified _ _ t | array t _ | generic t ts =>
    simp only [shown, marks, head, List.foldl_append, List.foldl_cons, List.foldl_nil, TypeMark.apply, ← TypeSig.shown_eq t,
      TypeSig.dimensioned, ↓reduceIte]
  | _ => rfl

theorem TypeSig.sizeOf_head_le (t : TypeSig) : sizeOf t.head ≤ sizeOf t := by
  cases t with
  | pointer t | byReference t | pinned t | vector t | modified _ _ t | array t _ | generic t ts =>
    have := TypeSig.sizeOf_head_le t
    simp only [head]
    simp
    omega
  | _ => simp [head]

theorem TypeSig.sizeOf_arguments_lt (t : TypeSig) {ts : List TypeSig} (member : .arguments ts ∈ t.marks) : sizeOf ts < sizeOf t := by
  cases t with
  | pointer t | byReference t | pinned t | vector t | modified _ _ t | array t _ | generic t us =>
    simp only [marks, List.mem_append, List.mem_singleton, reduceCtorEq, or_false, TypeMark.arguments.injEq] at member
    -- the arguments are those of an inner type, or the own ones of a generic type
    first
    | have := TypeSig.sizeOf_arguments_lt t member
      simp
      omega
    | rcases member with member | rfl
      · have := TypeSig.sizeOf_arguments_lt t member
        simp
        omega
      · simp
  | _ => simp [marks] at member

/-! Characters of a text -/

/-- The characters that names have none of. -/
def isMark (c : Char) : Bool := [' ', '*', '&', '[', ']', ',', '<', '>', '(', ')', '!'].contains c

theorem mark_head {c : Char} {text : List Char} (mark : isMark c = true) : ∀ d ∈ (c :: text).head?, isMark d = true := by
  intro _ head
  cases head
  exact mark

/-- A longest front of characters of one kind is the only one. -/
theorem front_unique {p : Char → Bool} {a b x y : List Char} (ha : ∀ c ∈ a, p c = true) (hb : ∀ c ∈ b, p c = true)
    (hx : ∀ c ∈ x.head?, p c = false) (hy : ∀ c ∈ y.head?, p c = false) (same : a ++ x = b ++ y) : a = b ∧ x = y := by
  have front {a x : List Char} (ha : ∀ c ∈ a, p c = true) (hx : ∀ c ∈ x.head?, p c = false) : (a ++ x).takeWhile p = a := by
    rw [List.takeWhile_append_of_pos ha]
    cases x with
    | nil => rw [List.takeWhile_nil, List.append_nil]
    | cons c x => rw [List.takeWhile_cons_of_neg (by simp [hx c rfl]), List.append_nil]
  have fronts : a = b := by rw [← front ha hx, same, front hb hy]
  subst fronts
  exact ⟨rfl, List.append_cancel_left same⟩

/-- A word ends where a mark stands, or at the end of the text. -/
theorem word_unique {a b x y : List Char} (ha : ∀ c ∈ a, isMark c = false) (hb : ∀ c ∈ b, isMark c = false)
    (hx : ∀ c ∈ x.head?, isMark c = true) (hy : ∀ c ∈ y.head?, isMark c = true) (same : a ++ x = b ++ y) : a = b ∧ x = y := by
  have negate {text : List Char} {value : Bool} (h : ∀ c ∈ text, isMark c = value) : ∀ c ∈ text, (!isMark c) = !value :=
    fun c member => congrArg _ (h c member)
  exact front_unique (p := fun c => !isMark c) (negate ha) (negate hb)
    (fun c member => congrArg _ (hx c member)) (fun c member => congrArg _ (hy c member)) same

theorem toList_decimal (n : Nat) : (Text.decimal n).toList = Nat.toDigits 10 n := by
  simp [Text.decimal, Text.padLeft]

theorem exists_digit (n : Nat) : ∃ digit rest, (Text.decimal n).toList = digit :: rest ∧ digit.isDigit = true := by
  rw [toList_decimal]
  cases digits : Nat.toDigits 10 n with
  | nil => exact absurd digits Nat.toDigits_ne_nil
  | cons digit rest => exact ⟨digit, rest, rfl, Nat.isDigit_of_mem_toDigits (by decide) (by decide) (digits ▸ List.mem_cons_self)⟩

theorem decimal_unique {m n : Nat} {x y : List Char} (hx : ∀ c ∈ x.head?, c.isDigit = false) (hy : ∀ c ∈ y.head?, c.isDigit = false)
    (same : (Text.decimal m).toList ++ x = (Text.decimal n).toList ++ y) : m = n ∧ x = y := by
  have digits (n : Nat) : ∀ c ∈ (Text.decimal n).toList, c.isDigit = true := by
    rw [toList_decimal]
    exact fun c member => Nat.isDigit_of_mem_toDigits (by decide) (by decide) member
  obtain ⟨numbers, rest⟩ := front_unique (digits m) (digits n) hx hy same
  rw [toList_decimal, toList_decimal] at numbers
  have value := congrArg (fun digits => Nat.ofDigitChars 10 digits 0) numbers
  rw [Nat.ofDigitChars_ten_toDigits, Nat.ofDigitChars_ten_toDigits] at value
  exact ⟨value, rest⟩

/-- The text of a list: its first item, and behind a comma the others. -/
theorem toList_commaSeparated (text : String) (texts : List String) : (commaSeparated (text :: texts)).toList =
    text.toList ++ if texts = [] then [] else ',' :: (commaSeparated texts).toList := by
  cases texts with
  | nil => simp [commaSeparated]
  | cons second texts => simp [commaSeparated, String.toList_intercalate]

/-! Names -/

/-- A name of a type is none of the words for built-in types. It has no marks and no digit in front, as the identifiers of every
    script. -/
structure IsTypeName (text : String) : Prop where
  nonempty : text.toList ≠ []
  letters : ∀ c ∈ text.toList, isMark c = false
  first : ∀ c ∈ text.toList.head?, c.isDigit = false
  unreserved : ∀ kind : Primitive, text ≠ kind.word

/-- The words in front of a type, which may be taken for its name. -/
def openingWords : List String := ["instance", "explicit", "vararg", "method"]

/-- The words behind a type, in front of which the name of another one may seem to stand. -/
def closingWords : List String := ["pinned", "modreq", "modopt"]

theorem openingWords_letters : ∀ word ∈ openingWords, ∀ c ∈ word.toList, isMark c = false := by
  simp [openingWords, isMark]

theorem closingWords_letters : ∀ word ∈ closingWords, ∀ c ∈ word.toList, isMark c = false := by
  simp [closingWords, isMark]

section

variable {ε : Type} (name : Token → Except ε String)

/-- Different tokens have different names. There are no two types one of which is called like a word that opens a type, and the
    other like one that closes it. -/
structure NamesApart : Prop where
  injective : ∀ {s t text}, name s = .ok text → name t = .ok text → s = t
  isName : ∀ {t text}, name t = .ok text → IsTypeName text
  words : ∀ {s t opening closing}, name s = .ok opening → name t = .ok closing → opening ∈ openingWords → closing ∉ closingWords

/-! The text of marks -/

inductive TypeMark.Shown : TypeMark → List Char → Prop
  | pointer : Shown .pointer ['*']
  | byReference : Shown .byReference ['&']
  | pinned : Shown .pinned (' ' :: "pinned".toList)
  | dimensions (commas : Nat) : Shown (.dimensions commas) ('[' :: (List.replicate commas ',' ++ [']']))
  | arguments {types texts} : TypeSig.renderAll name types = .ok texts →
    Shown (.arguments types) ('<' :: ((commaSeparated texts).toList ++ ['>']))
  | modifier {required : Bool} {type text} : name type = .ok text →
    Shown (.modifier required type) (' ' :: ((if required then "modreq" else "modopt").toList ++ ('(' :: (text.toList ++ [')']))))

inductive TypeMark.AllShown : List TypeMark → List Char → Prop
  | nil : AllShown [] []
  | cons {mark marks front back} : TypeMark.Shown name mark front → AllShown marks back → AllShown (mark :: marks) (front ++ back)

theorem TypeMark.AllShown.concat {marks : List TypeMark} {front back : List Char} {mark : TypeMark}
    (others : TypeMark.AllShown name marks front) (last : TypeMark.Shown name mark back) :
    TypeMark.AllShown name (marks ++ [mark]) (front ++ back) := by
  induction others with
  | nil =>
    have alone := TypeMark.AllShown.cons last .nil
    rw [List.append_nil] at alone
    exact alone
  | cons first _ ih =>
    rw [List.cons_append, List.append_assoc]
    exact .cons first ih

/-- The text of a type is the one of its head, and behind it the one of its marks. -/
theorem TypeSig.exists_parts {t : TypeSig} {text : String} (h : t.render name = .ok text) : ∃ front back,
    t.head.render name = .ok front ∧ TypeMark.AllShown name t.marks back ∧ text.toList = front.toList ++ back := by
  have behind {base : TypeSig} {mark : TypeMark} {front own : String} {back : List Char}
      (parts : ∃ first others, base.head.render name = .ok first ∧ TypeMark.AllShown name base.marks others ∧
        front.toList = first.toList ++ others) (last : TypeMark.Shown name mark back) (whole : own.toList = front.toList ++ back) :
      ∃ first others, base.head.render name = .ok first ∧ TypeMark.AllShown name (base.marks ++ [mark]) others ∧
        own.toList = first.toList ++ others := by
    obtain ⟨first, others, own, shown, split⟩ := parts
    exact ⟨first, others ++ back, own, shown.concat name last, by rw [whole, split, List.append_assoc]⟩
  cases t with
  | pointer t =>
    obtain ⟨front, shown, same⟩ := bind_eq_ok.mp h
    cases same
    exact behind (TypeSig.exists_parts shown) .pointer (String.toList_append ..)
  | byReference t =>
    obtain ⟨front, shown, same⟩ := bind_eq_ok.mp h
    cases same
    exact behind (TypeSig.exists_parts shown) .byReference (String.toList_append ..)
  | pinned t =>
    obtain ⟨front, shown, same⟩ := bind_eq_ok.mp h
    cases same
    exact behind (TypeSig.exists_parts shown) .pinned (String.toList_append ..)
  | vector t =>
    obtain ⟨front, shown, same⟩ := bind_eq_ok.mp h
    cases same
    exact behind (TypeSig.exists_parts shown) (.dimensions 0) (String.toList_append ..)
  | array t shape =>
    obtain ⟨front, shown, same⟩ := bind_eq_ok.mp h
    cases same
    exact behind (TypeSig.exists_parts shown) (.dimensions _) (by simp)
  | generic t ts =>
    obtain ⟨texts, arguments, h⟩ := bind_eq_ok.mp h
    obtain ⟨front, shown, same⟩ := bind_eq_ok.mp h
    cases same
    exact behind (TypeSig.exists_parts shown) (.arguments arguments) (by simp)
  | modified required modifier t =>
    obtain ⟨front, shown, h⟩ := bind_eq_ok.mp h
    obtain ⟨own, named, same⟩ := bind_eq_ok.mp h
    cases same
    exact behind (TypeSig.exists_parts shown) (.modifier named) (by cases required <;> simp)
  | _ => exact ⟨text, [], h, .nil, (List.append_nil _).symm⟩

end

/-! What stands behind a type -/

/-- What may stand behind the text of a type: nothing, the end of a list or its next item, the parameters of a method or the
    number of its type parameters. -/
inductive EndsType : List Char → Prop
  | nil : EndsType []
  | mark {c rest} : c ∈ [',', '>', ')', '('] → EndsType (c :: rest)
  | count {digit rest} : digit.isDigit = true → EndsType ('<' :: digit :: rest)

/-- What may stand behind the first word in the text of a type: a mark, and behind a blank a word that closes a type. -/
structure EndsWord (text : List Char) : Prop where
  mark : ∀ c ∈ text.head?, isMark c = true
  closing : ∀ rest, text = ' ' :: rest → ∃ word ∈ closingWords, ∃ others, rest = word.toList ++ others ∧
    ∀ c ∈ others.head?, isMark c = true

theorem EndsType.word {text : List Char} (h : EndsType text) : EndsWord text := by
  cases h with
  | nil => exact ⟨fun _ none => absurd none (by simp), fun _ none => absurd none (by simp)⟩
  | @mark c rest listed =>
    have other : isMark c = true ∧ c ≠ ' ' := by
      revert listed
      simp only [List.mem_cons, List.not_mem_nil, or_false]
      rintro (rfl | rfl | rfl | rfl) <;> decide
    exact ⟨mark_head other.1, fun _ blank => absurd (List.cons.inj blank).1 other.2⟩
  | count =>
    exact ⟨mark_head rfl, fun _ blank => absurd (List.cons.inj blank).1 (by decide)⟩

section

variable {ε : Type} {name : Token → Except ε String}

theorem TypeMark.AllShown.follows {marks : List TypeMark} {text rest : List Char} (shown : TypeMark.AllShown name marks text)
    (stops : EndsType rest) : EndsWord (text ++ rest) := by
  induction shown with
  | nil => exact stops.word
  | @cons _ _ _ back first others ih =>
    rw [List.append_assoc]
    have plain {c : Char} {text : List Char} (mark : isMark c = true) (other : c ≠ ' ') : EndsWord (c :: text) :=
      ⟨mark_head mark, fun _ blank => absurd (List.cons.inj blank).1 other⟩
    cases first with
    | pointer => exact plain rfl (by decide)
    | byReference => exact plain rfl (by decide)
    | dimensions => exact plain rfl (by decide)
    | arguments => exact plain rfl (by decide)
    | pinned =>
      refine ⟨mark_head rfl, ?_⟩
      intro _ same
      cases same
      exact ⟨"pinned", by decide, back ++ rest, rfl, ih.mark⟩
    | @modifier required =>
      refine ⟨mark_head rfl, ?_⟩
      intro _ same
      cases same
      exact ⟨if required then "modreq" else "modopt", by cases required <;> decide, _, List.append_assoc .., mark_head rfl⟩

/-! The first word of a type -/

/-- The first word of a built-in type. -/
def Primitive.lead : Primitive → String
  | nativeInt | nativeUInt => "native"
  | kind => kind.word

def Primitive.tail : Primitive → String
  | nativeInt => " int"
  | nativeUInt => " uint"
  | _ => ""

theorem Primitive.word_eq (kind : Primitive) : kind.word = kind.lead ++ kind.tail := by
  cases kind <;> rfl

theorem Primitive.native_or (kind : Primitive) :
    (kind.tail = "" ∧ kind.lead ≠ "native") ∨ (kind.lead = "native" ∧ (kind.tail = " int" ∨ kind.tail = " uint")) := by
  cases kind <;> decide

def Primitive.ofWord? (word : String) : Option Primitive := Primitive.all.find? (·.word == word)

theorem Primitive.ofWord?_word (kind : Primitive) : ofWord? kind.word = some kind := by
  cases kind <;> decide

theorem Primitive.eq_of_word {a b : Primitive} (same : a.word = b.word) : a = b := by
  have found := congrArg ofWord? same
  rw [ofWord?_word, ofWord?_word] at found
  exact Option.some.inj found

/-- The words that a type may start with if it does not start with a name. The empty word stands in front of a mark. -/
def typeWords : List String := "" :: "method" :: Primitive.all.map Primitive.lead

theorem Primitive.lead_mem (kind : Primitive) : kind.lead ∈ typeWords := by
  cases kind <;> decide

theorem Primitive.lead_letters (kind : Primitive) : ∀ c ∈ kind.lead.toList, isMark c = false := by
  cases kind <;> simp [lead, word, isMark]

theorem Primitive.tail_mark (kind : Primitive) : ∀ c ∈ kind.tail.toList.head?, isMark c = true := by
  cases kind <;> simp [tail, isMark]

theorem Primitive.lead_ne (kind : Primitive) : kind.lead ≠ "" ∧ kind.lead ≠ "method" := by
  cases kind <;> decide

/-- The first word of a head, and what stands behind it. -/
inductive TypeSig.Starts (name : Token → Except ε String) : TypeSig → String → List Char → Prop
  | primitive (kind : Primitive) : Starts name (.primitive kind) kind.lead kind.tail.toList
  | named {t : TypeSig} {token text} : t.shown = .classType token → name token = .ok text → Starts name t text []
  | typeParameter (number : UInt32) : Starts name (.typeParameter number) "" ('!' :: (Text.decimal number.toNat).toList)
  | methodParameter (number : UInt32) : Starts name (.methodParameter number) "" ('!' :: '!' :: (Text.decimal number.toNat).toList)
  | function {m : MethodSig} {text} : m.render name = .ok text → Starts name (.function m) "method" (' ' :: text.toList)

theorem TypeSig.exists_start {t : TypeSig} {text : String} (h : t.head.render name = .ok text) : ∃ lead tail,
    t.head.Starts name lead tail ∧ text.toList = lead.toList ++ tail := by
  cases t with
  | pointer t | byReference t | pinned t | vector t | array t _ | generic t _ | modified _ _ t => exact TypeSig.exists_start (t := t) h
  | primitive kind =>
    cases h
    exact ⟨_, _, .primitive kind, by rw [kind.word_eq, String.toList_append]⟩
  | classType token => exact ⟨text, [], .named rfl h, (List.append_nil _).symm⟩
  | valueType token => exact ⟨text, [], .named rfl h, (List.append_nil _).symm⟩
  | typeParameter number =>
    cases h
    exact ⟨_, _, .typeParameter number, String.toList_append ..⟩
  | methodParameter number =>
    cases h
    exact ⟨_, _, .methodParameter number, String.toList_append ..⟩
  | function m =>
    obtain ⟨front, shown, same⟩ := bind_eq_ok.mp h
    cases same
    exact ⟨_, _, .function shown, by simp⟩

theorem TypeSig.Starts.letters {t : TypeSig} {lead : String} {tail : List Char} (apart : NamesApart name)
    (h : t.Starts name lead tail) :
    ∀ c ∈ lead.toList, isMark c = false := by
  cases h with
  | primitive kind => exact kind.lead_letters
  | named _ named => exact (apart.isName named).letters
  | typeParameter => exact fun _ none => by cases none
  | methodParameter => exact fun _ none => by cases none
  | function => simp [isMark]

theorem TypeSig.Starts.behind {t : TypeSig} {lead : String} {tail rest : List Char} (h : t.Starts name lead tail) (follows : EndsWord rest) :
    ∀ c ∈ (tail ++ rest).head?, isMark c = true := by
  cases h with
  | primitive kind =>
    rw [List.head?_append]
    cases head : kind.tail.toList.head? with
    | none => exact follows.mark
    | some c => exact fun _ same => kind.tail_mark _ (head.trans same)
  | named => exact follows.mark
  | typeParameter => exact mark_head rfl
  | methodParameter => exact mark_head rfl
  | function => exact mark_head rfl

theorem typeWords_letters : ∀ word ∈ typeWords, word.toList.head?.all (fun c => !c.isDigit && !isMark c) = true := by
  simp [typeWords, Primitive.all, Primitive.lead, Primitive.word, isMark]

/-- The text of a type starts with no digit, and with no mark but the one of a parameter. -/
theorem TypeSig.exists_first {t : TypeSig} {text : String} (apart : NamesApart name) (h : t.render name = .ok text) :
    ∃ c rest, text.toList = c :: rest ∧ c.isDigit = false ∧ (isMark c = true → c = '!') := by
  obtain ⟨front, back, own, _, whole⟩ := TypeSig.exists_parts name h
  obtain ⟨lead, tail, starts, split⟩ := TypeSig.exists_start own
  rw [whole, split]
  have plain (nonempty : lead.toList ≠ []) (digit : ∀ c ∈ lead.toList.head?, c.isDigit = false) :
      ∃ c rest, lead.toList ++ tail ++ back = c :: rest ∧ c.isDigit = false ∧ (isMark c = true → c = '!') := by
    have letters := starts.letters apart
    cases word : lead.toList with
    | nil => exact absurd word nonempty
    | cons c rest =>
      rw [word] at digit letters
      refine ⟨c, _, rfl, digit c rfl, fun mark => ?_⟩
      rw [letters c List.mem_cons_self] at mark
      cases mark
  clear own
  generalize t.head = s at starts
  cases starts with
  | primitive kind =>
    refine plain (fun none => kind.lead_ne.1 (String.toList_inj.mp none)) fun c head => ?_
    have first := typeWords_letters _ kind.lead_mem
    rw [head] at first
    simp at first
    exact first.1
  | named _ named => exact plain (apart.isName named).nonempty (apart.isName named).first
  | typeParameter => exact ⟨_, _, rfl, rfl, fun _ => rfl⟩
  | methodParameter => exact ⟨_, _, rfl, rfl, fun _ => rfl⟩
  | function => exact plain (by simp) (by simp)

/-! Words in front of a type -/

/-- A text starts with one of the words, or with the name of a type. -/
def Leads (name : Token → Except ε String) (words : List String) (text : List Char) : Prop :=
  ∃ (lead : String) (tail : List Char), text = lead.toList ++ tail ∧ (∀ c ∈ lead.toList, isMark c = false) ∧
    (∀ c ∈ tail.head?, isMark c = true) ∧ (lead ∈ words ∨ (∃ token, name token = .ok lead) ∧ EndsWord tail)

theorem Leads.mono {words more : List String} {text : List Char} (leads : Leads name words text) (sub : words ⊆ more) :
    Leads name more text := by
  obtain ⟨lead, tail, split, letters, behind, first⟩ := leads
  exact ⟨lead, tail, split, letters, behind, first.imp_left (sub ·)⟩

theorem TypeSig.Starts.leads {t : TypeSig} {lead : String} {tail rest : List Char} (starts : t.Starts name lead tail)
    (follows : EndsWord rest) (apart : NamesApart name) : Leads name typeWords (lead.toList ++ (tail ++ rest)) := by
  refine ⟨lead, tail ++ rest, rfl, starts.letters apart, starts.behind follows, ?_⟩
  cases starts with
  | primitive kind => exact .inl kind.lead_mem
  | named _ named => exact .inr ⟨⟨_, named⟩, follows⟩
  | typeParameter | methodParameter | function => exact .inl (by simp [typeWords])

theorem TypeSig.leads {t : TypeSig} {text : String} {rest : List Char} (h : t.render name = .ok text) (stops : EndsType rest)
    (apart : NamesApart name) : Leads name typeWords (text.toList ++ rest) := by
  obtain ⟨front, back, own, marks, whole⟩ := TypeSig.exists_parts name h
  obtain ⟨lead, tail, starts, split⟩ := TypeSig.exists_start own
  rw [whole, split, List.append_assoc, List.append_assoc]
  exact starts.leads (marks.follows stops) apart

/-- The text of a word that may be missing. -/
def optionalWord (word : String) (present : Bool) : List Char := if present then word.toList ++ [' '] else []

theorem Leads.optional {words : List String} {word : String} {p : Bool} {x : List Char} (leads : Leads name words x)
    (letters : ∀ c ∈ word.toList, isMark c = false) : Leads name (word :: words) (optionalWord word p ++ x) := by
  cases p with
  | false => exact leads.mono (List.subset_cons_self _ _)
  | true => exact ⟨word, ' ' :: x, by simp [optionalWord], letters, mark_head rfl, .inl List.mem_cons_self⟩

/-- The words that a method signature may start with if it does not start with a name. -/
def methodWords : List String := "instance" :: "explicit" :: "vararg" :: typeWords

def countText (count : UInt32) : List Char :=
  if 0 < count then '<' :: ((Text.decimal count.toNat).toList ++ ['>']) else []

theorem countText_ends (count : UInt32) (rest : List Char) : EndsType (countText count ++ ('(' :: rest)) := by
  unfold countText
  split
  · obtain ⟨digit, others, split, isDigit⟩ := exists_digit count.toNat
    rw [split]
    exact .count isDigit
  · exact .mark (by decide)

theorem MethodSig.exists_parts {m : MethodSig} {text : String} (h : m.render name = .ok text) : ∃ returns parameters,
    m.returns.render name = .ok returns ∧ TypeSig.renderAll name m.parameters = .ok parameters ∧
      text.toList = optionalWord "instance" m.hasThis ++ (optionalWord "explicit" m.explicitThis ++
        (optionalWord "vararg" (m.convention == MethodSig.variadic) ++ (returns.toList ++ (countText m.typeParameters ++
          ('(' :: ((commaSeparated parameters).toList ++ [')'])))))) := by
  obtain ⟨hasThis, explicitThis, convention, typeParameters, _, _, _⟩ := m
  obtain ⟨returns, own, h⟩ := bind_eq_ok.mp h
  obtain ⟨parameters, items, same⟩ := bind_eq_ok.mp h
  cases same
  refine ⟨returns, parameters, own, items, ?_⟩
  have word (word : String) (present : Bool) : (if present then word ++ " " else "").toList = optionalWord word present := by
    cases present <;> simp [optionalWord]
  have count : (if 0 < typeParameters then "<" ++ Text.decimal typeParameters.toNat ++ ">" else "").toList =
      countText typeParameters := by
    unfold countText
    split <;> simp
  simp only [String.toList_append, List.append_assoc, count, ← word]
  rfl

theorem MethodSig.leads {m : MethodSig} {text : String} {rest : List Char} (h : m.render name = .ok text)
    (apart : NamesApart name) : Leads name methodWords (text.toList ++ rest) := by
  obtain ⟨returns, parameters, own, -, whole⟩ := MethodSig.exists_parts h
  rw [whole]
  simp only [List.append_assoc, List.cons_append]
  exact (((TypeSig.leads own (countText_ends _ _) apart).optional (by simp [isMark])).optional (by simp [isMark])).optional
    (by simp [isMark])

end

end CilWeaver
