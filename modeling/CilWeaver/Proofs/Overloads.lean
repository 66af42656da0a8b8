import CilWeaver.Proofs.Catalogs
import CilWeaver.Proofs.SignatureTexts
import CilWeaver.Signature.Reader

/-!
The text of a signature tells the overloads of a method apart. Two signatures have the same text iff the text shows the same
of them, provided that no name of a type is taken for one of the words that the text has of its own. So a catalog keeps
each overload of which the text shows something else.
-/

namespace CilWeaver

open Outcome

section

variable {ε : Type} {name : Token → Except ε String}

/-- The text of a type tells what is shown of it, and where it ends. -/
def TypeSig.Legible (name : Token → Except ε String) (t : TypeSig) : Prop :=
  ∀ ⦃u : TypeSig⦄ ⦃a b : String⦄ ⦃x y : List Char⦄, t.render name = .ok a → u.render name = .ok b → EndsType x → EndsType y →
    a.toList ++ x = b.toList ++ y → t.shown = u.shown ∧ x = y

def MethodSig.Legible (name : Token → Except ε String) (m : MethodSig) : Prop :=
  ∀ ⦃n : MethodSig⦄ ⦃a b : String⦄ ⦃x y : List Char⦄, m.render name = .ok a → n.render name = .ok b →
    a.toList ++ x = b.toList ++ y → m.shown = n.shown ∧ x = y

def TypeSig.AllLegible (name : Token → Except ε String) (ts : List TypeSig) : Prop :=
  ∀ ⦃us : List TypeSig⦄ ⦃as bs : List String⦄ ⦃c d : Char⦄ ⦃x y : List Char⦄, TypeSig.renderAll name ts = .ok as →
    TypeSig.renderAll name us = .ok bs → c ∈ ['>', ')'] → d ∈ ['>', ')'] →
      (commaSeparated as).toList ++ c :: x = (commaSeparated bs).toList ++ d :: y →
        TypeSig.shownAll ts = TypeSig.shownAll us ∧ c :: x = d :: y

/-! Marks -/

/-- The items of a list start with no digit, and are no end of a list. -/
theorem TypeSig.exists_first_of_all {ts : List TypeSig} {texts : List String} (apart : NamesApart name)
    (h : TypeSig.renderAll name ts = .ok texts) :
    (ts = [] ∧ commaSeparated texts = "") ∨
      ∃ c rest, (commaSeparated texts).toList = c :: rest ∧ c.isDigit = false ∧ c ∉ ['>', ')'] := by
  cases ts with
  | nil =>
    cases h
    exact .inl ⟨rfl, rfl⟩
  | cons t ts =>
    obtain ⟨first, own, h⟩ := bind_eq_ok.mp h
    obtain ⟨others, _, same⟩ := bind_eq_ok.mp h
    cases same
    obtain ⟨c, rest, split, digit, mark⟩ := TypeSig.exists_first apart own
    have other : c ∉ ['>', ')'] := by
      intro closer
      have : isMark c = true := by
        revert closer
        simp only [List.mem_cons, List.not_mem_nil, or_false]
        rintro (rfl | rfl) <;> rfl
      rw [mark this] at closer
      simp at closer
    rw [toList_commaSeparated, split]
    exact .inr ⟨c, _, rfl, digit, other⟩

/-- A mark tells what it is, and where it ends. -/
theorem TypeMark.Shown.unique {mark other : TypeMark} {a b x y : List Char} (legible : ∀ ts, mark = .arguments ts → TypeSig.AllLegible name ts)
    (left : TypeMark.Shown name mark a) (right : TypeMark.Shown name other b) (apart : NamesApart name) (same : a ++ x = b ++ y) :
    (∀ t, mark.apply t = other.apply t) ∧ x = y := by
  cases left with
  | pointer =>
    cases right with
    | pointer => exact ⟨fun _ => rfl, (List.cons.inj same).2⟩
    | _ => simp at same
  | byReference =>
    cases right with
    | byReference => exact ⟨fun _ => rfl, (List.cons.inj same).2⟩
    | _ => simp at same
  | pinned =>
    cases right with
    | pinned => exact ⟨fun _ => rfl, by simpa using same⟩
    | @modifier required => cases required <;> simp at same
    | _ => simp at same
  | dimensions m =>
    cases right with
    | dimensions n =>
      rw [List.cons_append, List.cons_append, List.append_assoc, List.append_assoc] at same
      have commas (k : Nat) : ∀ c ∈ List.replicate k ',', (c == ',') = true := by simp
      have closing (z : List Char) : ∀ c ∈ (']' :: z).head?, (c == ',') = false := by simp
      obtain ⟨front, rest⟩ := front_unique (commas m) (commas n) (closing x) (closing y) (List.cons.inj same).2
      have count := congrArg List.length front
      rw [List.length_replicate, List.length_replicate] at count
      subst count
      exact ⟨fun _ => rfl, (List.cons.inj rest).2⟩
    | _ => simp at same
  | @arguments ts texts shown =>
    cases right with
    | @arguments us others shown' =>
      rw [List.cons_append, List.cons_append, List.append_assoc, List.append_assoc] at same
      obtain ⟨types, rest⟩ := legible ts rfl shown shown' (by simp) (by simp) (List.cons.inj same).2
      exact ⟨fun t => congrArg (TypeSig.generic t) types, (List.cons.inj rest).2⟩
    | _ => simp at same
  | @modifier required s text named =>
    cases right with
    | @modifier required' t text' named' =>
      have words : required = required' ∧ text.toList ++ (')' :: x) = text'.toList ++ (')' :: y) := by
        cases required <;> cases required' <;> simp at same ⊢ <;> exact same
      obtain ⟨rfl, names⟩ := words
      obtain ⟨texts, rest⟩ := word_unique (apart.isName named).letters (apart.isName named').letters (mark_head rfl)
        (mark_head rfl) names
      rw [String.toList_inj] at texts
      subst texts
      rw [apart.injective named named']
      exact ⟨fun _ => rfl, (List.cons.inj rest).2⟩
    | pinned => cases required <;> simp at same
    | _ => simp at same

theorem TypeMark.Shown.not_ends {mark : TypeMark} {text rest : List Char} (shown : TypeMark.Shown name mark text)
    (apart : NamesApart name) : ¬EndsType (text ++ rest) := by
  have plain {c : Char} {text : List Char} (other : c ∉ [',', '>', ')', '(']) (opening : c ≠ '<') : ¬EndsType (c :: text) := by
    intro stops
    cases stops with
    | mark listed => exact other listed
    | count => exact opening rfl
  cases shown with
  | pointer | byReference | pinned | dimensions | modifier => exact plain (by decide) (by decide)
  | arguments shown =>
    intro stops
    rcases TypeSig.exists_first_of_all apart shown with ⟨-, none⟩ | ⟨c, _, split, digit, -⟩
    · rw [none] at stops
      cases stops with
      | mark listed => simp at listed
      | count digit => cases digit
    · rw [split] at stops
      cases stops with
      | mark listed => simp at listed
      | count count =>
        rw [digit] at count
        cases count

theorem TypeMark.AllShown.unique {marks others : List TypeMark} {a b x y : List Char} (apart : NamesApart name)
    (legible : ∀ ts, .arguments ts ∈ marks → TypeSig.AllLegible name ts) (left : TypeMark.AllShown name marks a)
    (right : TypeMark.AllShown name others b) (hx : EndsType x) (hy : EndsType y) (same : a ++ x = b ++ y) :
    (∀ t, marks.foldl TypeMark.apply t = others.foldl TypeMark.apply t) ∧ x = y := by
  induction left generalizing others b with
  | nil =>
    cases right with
    | nil => exact ⟨fun _ => rfl, same⟩
    | cons first others =>
      rw [List.nil_append, List.append_assoc] at same
      subst same
      exact absurd hx (first.not_ends apart)
  | cons first marks ih =>
    cases right with
    | nil =>
      rw [List.nil_append, List.append_assoc] at same
      subst same
      exact absurd hy (first.not_ends apart)
    | cons first' marks' =>
      rw [List.append_assoc, List.append_assoc] at same
      obtain ⟨applied, rest⟩ := first.unique (fun ts h => legible ts (h ▸ List.mem_cons_self)) first' apart same
      obtain ⟨folded, rest⟩ := ih (fun ts member => legible ts (List.mem_cons_of_mem _ member)) marks' rest
      exact ⟨fun t => by rw [List.foldl_cons, List.foldl_cons, applied, folded], rest⟩

/-! Words -/

/-- A word that opens a type is not taken for the name of one. -/
theorem Leads.not_opened {words more : List String} {text rest : List Char} {word : String} (apart : NamesApart name)
    (leads : Leads name words text) (opening : word ∈ openingWords) (other : word ∉ words) (behind : Leads name more rest)
    (open' : ∀ closing ∈ closingWords, closing ∉ more) : text ≠ word.toList ++ (' ' :: rest) := by
  intro same
  obtain ⟨lead, tail, split, letters, mark, first⟩ := leads
  rw [split] at same
  obtain ⟨leads, tails⟩ := word_unique letters (openingWords_letters _ opening) mark (mark_head rfl) same
  rw [String.toList_inj] at leads
  subst leads
  rcases first with listed | ⟨⟨token, named⟩, follows⟩
  · exact other listed
  -- a type with that name is closed by the first word of the rest, which then is the name of another type
  · obtain ⟨closing, closes, others, split, ends⟩ := follows.closing rest tails
    obtain ⟨lead', tail', split', letters', mark', first'⟩ := behind
    obtain ⟨leads', -⟩ := word_unique letters' (closingWords_letters _ closes) mark' ends (split'.symm.trans split)
    rw [String.toList_inj] at leads'
    subst leads'
    rcases first' with listed | ⟨⟨token', named'⟩, -⟩
    · exact open' _ closes listed
    · exact apart.words named named' opening closes

theorem optionalWord_unique {words : List String} {word : String} {p q : Bool} {x y : List Char} (apart : NamesApart name)
    (hx : Leads name words x) (hy : Leads name words y) (opening : word ∈ openingWords) (other : word ∉ words)
    (open' : ∀ closing ∈ closingWords, closing ∉ words) (same : optionalWord word p ++ x = optionalWord word q ++ y) :
    p = q ∧ x = y := by
  cases p <;> cases q
  · exact ⟨rfl, same⟩
  · exact absurd (by simpa [optionalWord] using same) (hx.not_opened apart opening other hy open')
  · exact absurd (by simpa [optionalWord] using same.symm) (hy.not_opened apart opening other hx open')
  · exact ⟨rfl, by simpa [optionalWord] using same⟩

theorem countText_unique {m n : UInt32} {x y : List Char} (same : countText m ++ ('(' :: x) = countText n ++ ('(' :: y)) :
    m = n ∧ x = y := by
  unfold countText at same
  split at same <;> split at same
  · rw [List.cons_append, List.cons_append, List.append_assoc, List.append_assoc] at same
    obtain ⟨count, rest⟩ := decimal_unique (by simp) (by simp) (List.cons.inj same).2
    exact ⟨UInt32.toNat_inj.mp count, by simpa using rest⟩
  · simp at same
  · simp at same
  · rename_i left right
    rw [UInt32.lt_iff_toNat_lt, UInt32.toNat_zero] at left right
    exact ⟨UInt32.toNat_inj.mp (by omega), (List.cons.inj same).2⟩

/-- A name is not taken for a built-in type. -/
theorem Primitive.not_named {kind : Primitive} {token : Token} {x : List Char} (apart : NamesApart name)
    (named : name token = .ok kind.lead) : ¬EndsWord (kind.tail.toList ++ x) := by
  intro follows
  have closed {word : String} {c : Char} {text others : List Char} (closes : word ∈ closingWords) (letter : c = 'i' ∨ c = 'u') :
      c :: text ≠ word.toList ++ others := by
    revert closes
    simp only [closingWords, List.mem_cons, List.not_mem_nil, or_false]
    rcases letter with rfl | rfl <;> rintro (rfl | rfl | rfl) <;> simp
  rcases kind.native_or with ⟨none, -⟩ | ⟨-, int | uint⟩
  · exact (apart.isName named).unreserved kind (by rw [kind.word_eq, none, String.append_empty])
  · obtain ⟨word, closes, others, split, -⟩ := follows.closing (['i', 'n', 't'] ++ x) (by simp [int])
    exact closed closes (.inl rfl) split
  · obtain ⟨word, closes, others, split, -⟩ := follows.closing (['u', 'i', 'n', 't'] ++ x) (by simp [uint])
    exact closed closes (.inr rfl) split

/-- A name is not taken for the word in front of a function. -/
theorem MethodSig.not_named {m : MethodSig} {token : Token} {text : String} {x : List Char} (apart : NamesApart name)
    (shown : m.render name = .ok text) (named : name token = .ok "method") : ¬EndsWord (' ' :: (text.toList ++ x)) := by
  intro follows
  have method : Leads name [] ("method".toList ++ (' ' :: (text.toList ++ x))) :=
    ⟨"method", _, rfl, (apart.isName named).letters, mark_head rfl, .inr ⟨⟨token, named⟩, follows⟩⟩
  exact method.not_opened apart (by decide) List.not_mem_nil (MethodSig.leads shown apart) (by decide) rfl

theorem EndsWord.not_digit {text : List Char} (ends : EndsWord text) : ∀ c ∈ text.head?, c.isDigit = false := by
  intro c head
  have mark := ends.mark c head
  simp only [isMark, List.contains_iff_mem, List.mem_cons, List.not_mem_nil, or_false] at mark
  rcases mark with rfl | rfl | rfl | rfl | rfl | rfl | rfl | rfl | rfl | rfl | rfl <;> rfl

theorem decimal_ne_mark (n : Nat) (x y : List Char) : (Text.decimal n).toList ++ x ≠ '!' :: y := by
  obtain ⟨digit, _, split, isDigit⟩ := exists_digit n
  rw [split]
  intro same
  rw [(List.cons.inj same).1] at isDigit
  cases isDigit

theorem Primitive.unique {k l : Primitive} {x y : List Char} (lead : k.lead = l.lead)
    (same : k.tail.toList ++ x = l.tail.toList ++ y) : k = l ∧ x = y := by
  have words (tails : k.tail = l.tail) : k = l ∧ x = y := by
    refine ⟨eq_of_word (by rw [k.word_eq, l.word_eq, lead, tails]), ?_⟩
    rw [tails] at same
    exact List.append_cancel_left same
  rcases k.native_or with ⟨left, other⟩ | ⟨native, left⟩ <;> rcases l.native_or with ⟨right, other'⟩ | ⟨native', right⟩
  · exact words (left.trans right.symm)
  · exact absurd (lead.trans native') other
  · exact absurd (lead.symm.trans native) other'
  · rcases left with left | left <;> rcases right with right | right
    · exact words (left.trans right.symm)
    · simp [left, right] at same
    · simp [left, right] at same
    · exact words (left.trans right.symm)

/-- The first type in a text tells what is shown of it, and where it ends. -/
theorem TypeSig.Starts.unique {s t : TypeSig} {lead lead' : String} {tail tail' x y : List Char} (apart : NamesApart name)
    (legible : ∀ m, s = .function m → m.Legible name) (left : s.Starts name lead tail) (right : t.Starts name lead' tail')
    (hx : EndsWord x) (hy : EndsWord y) (same : lead.toList ++ tail ++ x = lead'.toList ++ tail' ++ y) :
    s.shown = t.shown ∧ x = y := by
  rw [List.append_assoc, List.append_assoc] at same
  obtain ⟨leads, rest⟩ := word_unique (left.letters apart) (right.letters apart) (left.behind hx) (right.behind hy) same
  rw [String.toList_inj] at leads
  subst leads
  cases left with
  | primitive k =>
    generalize own : k.lead = lead at right
    cases right with
    | primitive l =>
      obtain ⟨rfl, ends⟩ := Primitive.unique own rest
      exact ⟨rfl, ends⟩
    | named _ named =>
      subst own
      rw [List.nil_append] at rest
      exact absurd (rest ▸ hy) (Primitive.not_named apart named)
    | typeParameter | methodParameter => exact absurd own k.lead_ne.1
    | function => exact absurd own k.lead_ne.2
  | @named _ token lead shown named =>
    cases right with
    | named shown' named' =>
      rw [shown, shown', apart.injective named named']
      exact ⟨rfl, rest⟩
    | primitive l =>
      rw [List.nil_append] at rest
      exact absurd (rest ▸ hx) (Primitive.not_named apart named)
    | typeParameter | methodParameter => exact absurd rfl (apart.isName named).nonempty
    | function shown' =>
      rw [List.nil_append] at rest
      exact absurd (rest ▸ hx) (MethodSig.not_named apart shown' named)
  | typeParameter number =>
    generalize own : "" = lead at right
    cases right with
    | typeParameter number' =>
      obtain ⟨numbers, ends⟩ := decimal_unique hx.not_digit hy.not_digit (List.cons.inj rest).2
      exact ⟨by rw [UInt32.toNat_inj.mp numbers], ends⟩
    | methodParameter number' => exact absurd (List.cons.inj rest).2 (decimal_ne_mark _ _ _)
    | primitive l => exact absurd own.symm l.lead_ne.1
    | named _ named =>
      subst own
      exact absurd rfl (apart.isName named).nonempty
    | function => simp at own
  | methodParameter number =>
    generalize own : "" = lead at right
    cases right with
    | methodParameter number' =>
      obtain ⟨numbers, ends⟩ := decimal_unique hx.not_digit hy.not_digit (List.cons.inj (List.cons.inj rest).2).2
      exact ⟨by rw [UInt32.toNat_inj.mp numbers], ends⟩
    | typeParameter number' => exact absurd (List.cons.inj rest).2.symm (decimal_ne_mark _ _ _)
    | primitive l => exact absurd own.symm l.lead_ne.1
    | named _ named =>
      subst own
      exact absurd rfl (apart.isName named).nonempty
    | function => simp at own
  | @function m text shown =>
    generalize own : "method" = lead at right
    cases right with
    | function shown' =>
      obtain ⟨signatures, ends⟩ := legible m rfl shown shown' (List.cons.inj rest).2
      exact ⟨congrArg TypeSig.function signatures, ends⟩
    | named _ named =>
      subst own
      rw [List.nil_append] at rest
      exact absurd (rest ▸ hy) (MethodSig.not_named apart shown named)
    | primitive l => exact absurd own.symm l.lead_ne.2
    | typeParameter | methodParameter => simp at own

theorem TypeSig.legible_of_parts {t : TypeSig} (apart : NamesApart name) (functions : ∀ m, t.head = .function m → m.Legible name)
    (arguments : ∀ ts, .arguments ts ∈ t.marks → TypeSig.AllLegible name ts) : t.Legible name := by
  intro u a b x y left right hx hy same
  obtain ⟨front, back, head, marks, whole⟩ := TypeSig.exists_parts name left
  obtain ⟨front', back', head', marks', whole'⟩ := TypeSig.exists_parts name right
  obtain ⟨lead, tail, starts, split⟩ := TypeSig.exists_start head
  obtain ⟨lead', tail', starts', split'⟩ := TypeSig.exists_start head'
  rw [whole, whole', split, split', List.append_assoc _ back, List.append_assoc _ back'] at same
  obtain ⟨heads, rest⟩ := starts.unique apart functions starts' (marks.follows hx) (marks'.follows hy) same
  obtain ⟨applied, ends⟩ := marks.unique apart arguments marks' hx hy rest
  exact ⟨by rw [t.shown_eq, u.shown_eq, heads, applied], ends⟩

theorem MethodSig.shown_eq (m : MethodSig) : m.shown =
    ⟨m.hasThis, m.explicitThis, if m.convention == MethodSig.variadic then MethodSig.variadic else 0, m.typeParameters,
      m.returns.shown, TypeSig.shownAll m.parameters, []⟩ := by
  cases m
  rfl

theorem MethodSig.legible_of_parts {m : MethodSig} (apart : NamesApart name) (returnsLegible : m.returns.Legible name)
    (parametersLegible : TypeSig.AllLegible name m.parameters) : m.Legible name := by
  intro n a b x y left right same
  obtain ⟨returns, parameters, own, items, whole⟩ := MethodSig.exists_parts left
  obtain ⟨returns', parameters', own', items', whole'⟩ := MethodSig.exists_parts right
  rw [whole, whole'] at same
  simp only [List.append_assoc, List.cons_append, List.nil_append] at same
  have leads := TypeSig.leads own (countText_ends m.typeParameters ((commaSeparated parameters).toList ++ (')' :: x))) apart
  have leads' := TypeSig.leads own' (countText_ends n.typeParameters ((commaSeparated parameters').toList ++ (')' :: y))) apart
  have variadic := leads.optional (p := m.convention == MethodSig.variadic) (openingWords_letters "vararg" (by decide))
  have variadic' := leads'.optional (p := n.convention == MethodSig.variadic) (openingWords_letters "vararg" (by decide))
  obtain ⟨this, rest⟩ := optionalWord_unique apart (variadic.optional (openingWords_letters "explicit" (by decide)))
    (variadic'.optional (openingWords_letters "explicit" (by decide))) (by decide) (by decide) (by decide) same
  obtain ⟨explicit, rest⟩ := optionalWord_unique apart variadic variadic' (by decide) (by decide) (by decide) rest
  obtain ⟨convention, rest⟩ := optionalWord_unique apart leads leads' (by decide) (by decide) (by decide) rest
  obtain ⟨result, rest⟩ := returnsLegible own own' (countText_ends _ _) (countText_ends _ _) rest
  obtain ⟨count, rest⟩ := countText_unique rest
  obtain ⟨types, ends⟩ := parametersLegible items items' (by simp) (by simp) rest
  exact ⟨by rw [m.shown_eq, n.shown_eq, this, explicit, convention, count, result, types], (List.cons.inj ends).2⟩

theorem TypeSig.renderAll_eq_nil_iff {ts : List TypeSig} {texts : List String} (h : TypeSig.renderAll name ts = .ok texts) :
    texts = [] ↔ ts = [] := by
  cases ts with
  | nil =>
    cases h
    simp
  | cons t ts =>
    obtain ⟨first, own, h⟩ := bind_eq_ok.mp h
    obtain ⟨others, _, same⟩ := bind_eq_ok.mp h
    cases same
    exact iff_of_false (List.cons_ne_nil _ _) (List.cons_ne_nil _ _)

theorem TypeSig.allLegible_of_mem {ts : List TypeSig} (apart : NamesApart name) (legible : ∀ t ∈ ts, t.Legible name) :
    TypeSig.AllLegible name ts := by
  induction ts with
  | nil =>
    intro us as bs c d x y left right hc hd same
    cases left
    rcases TypeSig.exists_first_of_all apart right with ⟨rfl, none⟩ | ⟨e, rest, split, -, other⟩
    · rw [none] at same
      exact ⟨rfl, same⟩
    · rw [split] at same
      exact absurd ((List.cons.inj same).1 ▸ hc) other
  | cons t ts ih =>
    intro us as bs c d x y left right hc hd same
    cases us with
    | nil =>
      cases right
      rcases TypeSig.exists_first_of_all apart left with ⟨none, -⟩ | ⟨e, rest, split, -, other⟩
      · cases none
      · rw [split] at same
        exact absurd ((List.cons.inj same).1 ▸ hd) other
    | cons u us =>
      obtain ⟨first, own, h⟩ := bind_eq_ok.mp left
      obtain ⟨others, items, built⟩ := bind_eq_ok.mp h
      cases built
      obtain ⟨first', own', h⟩ := bind_eq_ok.mp right
      obtain ⟨others', items', built⟩ := bind_eq_ok.mp h
      cases built
      rw [toList_commaSeparated, toList_commaSeparated, List.append_assoc, List.append_assoc] at same
      have stops {texts : List String} {e : Char} {z : List Char} (closes : e ∈ ['>', ')']) :
          EndsType ((if texts = [] then [] else ',' :: (commaSeparated texts).toList) ++ e :: z) := by
        split
        · refine .mark ?_
          simp only [List.mem_cons, List.not_mem_nil, or_false] at closes ⊢
          tauto
        · exact .mark (by simp)
      obtain ⟨shown, rest⟩ := legible t List.mem_cons_self own own' (stops hc) (stops hd) same
      rw [TypeSig.shownAll, TypeSig.shownAll, shown]
      rw [if_congr (TypeSig.renderAll_eq_nil_iff items) rfl rfl, if_congr (TypeSig.renderAll_eq_nil_iff items') rfl rfl] at rest
      -- no end of a list is a comma, so that both lists end here or both go on
      have comma {e : Char} (closes : e ∈ ['>', ')']) : e ≠ ',' := by
        rintro rfl
        simp at closes
      split at rest <;> split at rest
      · rename_i none none'
        rw [none, none']
        exact ⟨rfl, rest⟩
      · exact absurd (List.cons.inj rest).1 (comma hc)
      · exact absurd (List.cons.inj rest).1.symm (comma hd)
      · obtain ⟨types, ends⟩ := ih (fun t among => legible t (List.mem_cons_of_mem _ among)) items items' hc hd
          (List.cons.inj rest).2
        exact ⟨congrArg _ types, ends⟩

mutual

theorem TypeSig.legible (apart : NamesApart name) (t : TypeSig) : t.Legible name := by
  refine TypeSig.legible_of_parts apart (fun m function => ?_) fun ts member => ?_
  · have smaller : sizeOf (TypeSig.function m) ≤ sizeOf t := function ▸ t.sizeOf_head_le
    exact MethodSig.legible apart m
  · have smaller := t.sizeOf_arguments_lt member
    exact TypeSig.allLegible_of_mem apart fun t among => TypeSig.legible apart t
termination_by sizeOf t
decreasing_by
  · simp at smaller
    omega
  · have := List.sizeOf_lt_of_mem among
    omega

theorem MethodSig.legible (apart : NamesApart name) (m : MethodSig) : m.Legible name := by
  obtain ⟨this, explicit, convention, count, returns, parameters, extra⟩ := m
  exact MethodSig.legible_of_parts apart (TypeSig.legible apart returns)
    (TypeSig.allLegible_of_mem apart fun t among => TypeSig.legible apart t)
termination_by sizeOf m
decreasing_by
  · simp +arith
  · have := List.sizeOf_lt_of_mem among
    simp at this ⊢
    omega

end

theorem MethodSig.render_eq_iff {m n : MethodSig} {a b : String} (apart : NamesApart name) (hm : m.render name = .ok a)
    (hn : n.render name = .ok b) : a = b ↔ m.shown = n.shown := by
  constructor
  · rintro rfl
    exact (MethodSig.legible apart m hm hn (y := []) rfl).1
  · intro same
    rw [← MethodSig.render_shown, same, MethodSig.render_shown, hn] at hm
    exact (Except.ok.inj hm).symm

/-! Overloads in a catalog -/

/-- A method of the type, with the name. -/
structure MemberName.IsMethod (t : TypeName) (method : String) (m : MemberName) : Prop where
  declaring : m.declaring.key = t.key
  name : m.name = method
  kind : m.kind = .method

/-- A method with the name was added to the type, and the text of its signature shows the same. -/
def Addition.Overloaded (name : Token → Except ε String) (run : List Addition) (t : TypeName) (method : String) (told : MethodSig) :
    Prop :=
  ∃ (other : MemberName) (n : MethodSig), .member other ∈ run ∧ other.IsMethod t method ∧ n.render name = .ok other.signature ∧
    n.shown = told

theorem Catalog.any_matches_iff (apart : NamesApart name) {run : List Addition} {t : TypeName} {method : String} {m : MethodSig}
    {text : String} (shown : m.render name = .ok text)
    (earlier : ∀ other, .member other ∈ run → other.IsMethod t method → ∃ n : MethodSig, n.render name = .ok other.signature) :
    (ofRun run).members.any (·.matches ⟨t, method, .method, text⟩) = true ↔ Addition.Overloaded name run t method m.shown := by
  rw [MemberName.matches_eq, ← List.isSome_find?, member_ofRun, Option.isSome_map, List.find?_isSome]
  constructor
  · rintro ⟨other, among, same⟩
    have key := beq_iff_eq.mp same
    simp only [MemberName.key, Prod.mk.injEq] at key
    obtain ⟨declaring, named, kind, signature⟩ := key
    have added := Addition.mem_members.mp among
    obtain ⟨n, own⟩ := earlier other added ⟨declaring, named, kind⟩
    exact ⟨other, n, added, ⟨declaring, named, kind⟩, own, (MethodSig.render_eq_iff apart own shown).mp signature⟩
  · rintro ⟨other, n, added, ⟨declaring, named, kind⟩, own, told⟩
    have signature := (MethodSig.render_eq_iff apart own shown).mpr told
    refine ⟨other, Addition.mem_members.mpr added, beq_iff_eq.mpr ?_⟩
    simp only [MemberName.key, declaring, named, kind, signature]

/-- Two method signatures have the same text iff the text shows the same of them. So a method is missing in a catalog after
it was added only if the text shows the same of an overload that was added before. -/
theorem Catalog.overloads_kept (apart : NamesApart name) :
    (∀ {m n : MethodSig} {a b : String}, m.render name = .ok a → n.render name = .ok b → (a = b ↔ m.shown = n.shown)) ∧
    ∀ (run : List Addition) (t : TypeName) (method : String) (m : MethodSig) (text : String), m.render name = .ok text →
      (∀ other, .member other ∈ run → other.IsMethod t method → ∃ n : MethodSig, n.render name = .ok other.signature) →
        (Addition.Overloaded name run t method m.shown →
          ((ofRun run).addMember ⟨t, method, .method, text⟩).members = (ofRun run).members) ∧
        (¬Addition.Overloaded name run t method m.shown →
          ((ofRun run).addMember ⟨t, method, .method, text⟩).members =
            (ofRun run).members ++ [⟨t.canonical, method, .method, text⟩]) := by
  refine ⟨MethodSig.render_eq_iff apart, fun run t method m text shown earlier => ?_⟩
  have known := any_matches_iff apart shown earlier
  constructor
  · intro overloaded
    rw [members_addMember, if_pos (known.mpr overloaded)]
  · intro other
    rw [members_addMember, if_neg fun found => other (known.mp found)]
    rfl

end

namespace SampleNames

/-- Two types, one of which is called like a word that the text of a signature may start with. -/
def apart (type : Token) : Result String :=
  if type = .ofRow .typeDef 2 then .ok "instance"
  else if type = .ofRow .typeRef 1 then .ok "Game.Player"
  else .error (.malformed (.signatureType type))

theorem namesApart : NamesApart apart := by
  have named {t : Token} {text : String} (h : apart t = .ok text) :
      (t = .ofRow .typeDef 2 ∧ text = "instance") ∨ (t = .ofRow .typeRef 1 ∧ text = "Game.Player") := by
    unfold apart at h
    split at h
    · cases h
      exact .inl ⟨‹_›, rfl⟩
    · split at h
      · cases h
        exact .inr ⟨‹_›, rfl⟩
      · cases h
  constructor
  · intro s t text hs ht
    rcases named hs with ⟨rfl, rfl⟩ | ⟨rfl, rfl⟩ <;> rcases named ht with ⟨rfl, same⟩ | ⟨rfl, same⟩
    · rfl
    · exact absurd same (by decide)
    · exact absurd same (by decide)
    · rfl
  · intro t text h
    rcases named h with ⟨-, rfl⟩ | ⟨-, rfl⟩
    · exact ⟨by simp, by simp [isMark], by simp, by rintro ⟨⟩ <;> decide⟩
    · exact ⟨by simp, by simp [isMark], by simp, by rintro ⟨⟩ <;> decide⟩
  · intro s t opening closing _ ht _
    rcases named ht with ⟨-, rfl⟩ | ⟨-, rfl⟩ <;> decide

/-- `void m(instance*[,])`. -/
def first : MethodSig :=
  ⟨false, false, 0, 0, .primitive .void, [.array (.pointer (.classType (.ofRow .typeDef 2))) ⟨2, [], []⟩], []⟩

/-- `void m(instance[,]*)`. -/
def second : MethodSig :=
  ⟨false, false, 0, 0, .primitive .void, [.pointer (.array (.classType (.ofRow .typeDef 2)) ⟨2, [], []⟩)], []⟩

end SampleNames

open SampleNames in
theorem Catalog.overloads_kept_sample :
    NamesApart SampleNames.apart ∧ first.render SampleNames.apart = .ok "void(instance*[,])" ∧
      ((ofRun [.member ⟨⟨"a", "", "T"⟩, "m", .method, "void(instance*[,])"⟩]).addMember
        ⟨⟨"a", "", "T"⟩, "m", .method, "void(instance[,]*)"⟩).members.length = 2 := by
  have shown : first.render SampleNames.apart = .ok "void(instance*[,])" := by decide +kernel
  have shown' : second.render SampleNames.apart = .ok "void(instance[,]*)" := by decide +kernel
  have kept := (overloads_kept namesApart).2 [.member ⟨⟨"a", "", "T"⟩, "m", .method, "void(instance*[,])"⟩] ⟨"a", "", "T"⟩ "m"
    second _ shown' fun other added _ => by
      cases List.mem_singleton.mp added
      exact ⟨first, shown⟩
  refine ⟨namesApart, shown, ?_⟩
  rw [kept.2 ?_]
  · rfl
  · rintro ⟨other, n, added, -, own, told⟩
    cases List.mem_singleton.mp added
    have same := ((overloads_kept namesApart).1 own shown).mp rfl
    rw [told] at same
    exact absurd same (by decide +kernel)

/-- A word that opens a type and one that closes it, both of them names of types. -/
def SampleNames.mixed (type : Token) : Result String :=
  if type = .ofRow .typeDef 2 then .ok "instance"
  else if type = .ofRow .typeDef 3 then .ok "pinned"
  else .error (.malformed (.signatureType type))

/-- An array with one dimension has the text of a vector, and a word of the text may be taken for a name: of two overloads the
second one is missing in the catalog. -/
theorem Catalog.overload_dropped :
    let vector : MethodSig := ⟨false, false, 0, 0, .primitive .void, [.vector (.primitive .int32)], []⟩
    let array : MethodSig := ⟨false, false, 0, 0, .primitive .void, [.array (.primitive .int32) ⟨1, [], []⟩], []⟩
    let instanced : MethodSig := ⟨true, false, 0, 0, .classType (.ofRow .typeDef 3), [], []⟩
    let pinned : MethodSig := ⟨false, false, 0, 0, .pinned (.classType (.ofRow .typeDef 2)), [], []⟩
    Signature.parseMethod [0, 1, 1, 0x1D, 8] = .ok vector ∧ Signature.parseMethod [0, 1, 1, 0x14, 8, 1, 0, 0] = .ok array ∧
      Signature.parseMethod [0x20, 0, 0x12, 12] = .ok instanced ∧ Signature.parseMethod [0, 0, 0x45, 0x12, 8] = .ok pinned ∧
      vector.render SampleNames.mixed = .ok "void(int32[])" ∧ array.render SampleNames.mixed = .ok "void(int32[])" ∧
      instanced.render SampleNames.mixed = .ok "instance pinned()" ∧ pinned.render SampleNames.mixed = .ok "instance pinned()" ∧
      (ofRun [.member ⟨⟨"a", "", "T"⟩, "m", .method, "void(int32[])"⟩,
        .member ⟨⟨"a", "", "T"⟩, "m", .method, "void(int32[])"⟩]).memberCount = 1 ∧
      (ofRun [.member ⟨⟨"a", "", "T"⟩, "m", .method, "instance pinned()"⟩,
        .member ⟨⟨"a", "", "T"⟩, "m", .method, "instance pinned()"⟩]).memberCount = 1 := by
  decide +kernel

end CilWeaver
