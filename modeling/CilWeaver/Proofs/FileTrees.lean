import CilWeaver.File.Tree
import CilWeaver.Proofs.Catalogs

/-!
What paths lead to after files were put into a tree or erased from it. As long as no directory appears or disappears, a path
leads to the same place as before, and only what is at that place may differ.
-/

namespace CilWeaver

namespace FileTree

/-! Paths of one name -/

theorem splitOnAux_of_plain {back : List Char} (plain : '/' ∉ back) (front : List Char) :
    String.splitOnAux (.ofList (front ++ back)) "/" 0 ⟨String.utf8Len front⟩ 0 [] = [.ofList (front ++ back)] := by
  induction back generalizing front with
  | nil =>
    have whole := String.extract_of_valid [] front []
    rw [List.nil_append, List.append_nil] at whole
    rw [String.splitOnAux, if_pos ((String.atEnd_of_valid front []).mpr rfl), List.append_nil]
    simpa using whole
  | cons c back ih =>
    rw [List.mem_cons, not_or] at plain
    obtain ⟨other, plain⟩ := plain
    have more := ih plain (front ++ [c])
    have slash : String.Pos.Raw.get "/" 0 = '/' := by decide +kernel
    have unequal : ¬((c :: back).headD default == '/') = true := by
      simpa using Ne.symm other
    have step : String.utf8Len (front ++ [c]) = String.utf8Len front + c.utf8Size := by simp
    rw [String.splitOnAux, if_neg (mt (String.atEnd_of_valid front (c :: back)).mp (List.cons_ne_nil c back)), String.get_of_valid, slash]
    rw [List.append_assoc, List.singleton_append, step] at more
    rw [if_neg unequal]
    have start : String.Pos.Raw.unoffsetBy ⟨String.utf8Len front⟩ 0 = ⟨String.utf8Len front⟩ := rfl
    rw [start, String.next_of_valid]
    exact more

theorem splitNames_of_plain {path : String} (plain : '/' ∉ path.toList) : splitNames path = [path] := by
  unfold splitNames String.splitOn
  rw [if_neg (by decide)]
  simpa using splitOnAux_of_plain plain []

theorem locate_single {t : FileTree} {path : String} (single : '/' ∉ path.toList)
    (plain : path.contains '\x00' = false) (filled : path.isEmpty = false) (short : path.utf8ByteSize ≤ maxPathSize)
    (relative : path.startsWith "/" = false) : t.locate path = t.step ⟨t.current, some .directory⟩ path := by
  unfold locate
  rw [splitNames_of_plain single]
  simp only [plain, filled, relative, Nat.not_lt.mpr short, Bool.false_eq_true, if_false, List.foldlM_cons, List.foldlM_nil]
  exact bind_pure _

/-! Places -/

variable {t u v : FileTree} {names other : List String} {path : String} {data : Bytes}

theorem node?_eq_lookup (free : t.node? names ≠ some .directory) : names.isEmpty = false ∧ names ≠ t.current := by
  unfold node? at free
  split at free
  · exact absurd rfl free
  · rename_i plain
    simpa using plain

/-- A place where no directory is. -/
theorem node?_put (free : t.node? names ≠ some .directory) (node : FileNode) :
    (t.put names node).node? other = if other = names then some node else t.node? other := by
  obtain ⟨nonempty, away⟩ := node?_eq_lookup free
  have current : (t.put names node).current = t.current := by
    unfold put
    split <;> rfl
  have found : (t.put names node).nodes.lookup other = if other = names then some node else t.nodes.lookup other := by
    unfold put
    split
    · rename_i known
      rw [Catalog.lookup_map_replace]
      split
      · rename_i same
        subst same
        obtain ⟨old, found⟩ := Option.isSome_iff_exists.mp known
        rw [found]
        rfl
      · rfl
    · rename_i unknown
      rw [List.lookup_append, Catalog.lookup_cons_eq]
      split
      · rename_i same
        subst same
        simp [Option.not_isSome_iff_eq_none.mp unknown]
      · simp
  unfold node?
  rw [current, found]
  by_cases same : other = names
  · subst same
    simp [nonempty, away]
  · simp only [same, if_false]

theorem node?_erase (free : t.node? names ≠ some .directory) :
    (t.erase names).node? other = if other = names then none else t.node? other := by
  obtain ⟨nonempty, away⟩ := node?_eq_lookup free
  have found : (t.erase names).nodes.lookup other = if other = names then none else t.nodes.lookup other := by
    unfold erase
    split
    · rename_i same
      subst same
      exact Catalog.lookup_filter_key ..
    · exact Catalog.lookup_filter_ne ‹_›
  unfold node?
  rw [found]
  by_cases same : other = names
  · subst same
    simp [nonempty, away, erase]
  · simp only [same, if_false, erase]

/-- The same directories, and the same one where relative paths start. -/
structure SameDirectories (t u : FileTree) : Prop where
  current : u.current = t.current
  nodes : ∀ names, u.node? names = some .directory ↔ t.node? names = some .directory

namespace SameDirectories

theorem refl (t : FileTree) : t.SameDirectories t := ⟨rfl, fun _ => Iff.rfl⟩

theorem trans (first : t.SameDirectories u) (second : u.SameDirectories v) : t.SameDirectories v :=
  ⟨second.current.trans first.current, fun names => (second.nodes names).trans (first.nodes names)⟩

theorem put (free : t.node? names ≠ some .directory) : t.SameDirectories (t.put names (.file data)) := by
  refine ⟨?_, fun other => ?_⟩
  · unfold FileTree.put
    split <;> rfl
  · rw [node?_put free]
    split
    · rename_i same
      subst same
      exact iff_of_false nofun free
    · exact Iff.rfl

theorem erase (free : t.node? names ≠ some .directory) : t.SameDirectories (t.erase names) := by
  refine ⟨rfl, fun other => ?_⟩
  rw [node?_erase free]
  split
  · rename_i same
    subst same
    exact iff_of_false nofun free
  · exact Iff.rfl

end SameDirectories

/-- Two places with the same names in two trees, both of them directories, or both none. -/
structure SamePlace (t u : FileTree) (p q : FilePlace) : Prop where
  names : q.names = p.names
  nodes : (p.node? = some .directory ∧ q.node? = some .directory) ∨
    (p.node? ≠ some .directory ∧ q.node? ≠ some .directory ∧ p.node? = t.node? p.names ∧ q.node? = u.node? p.names)

/-- Both paths lead nowhere, or both to the same place. -/
def SameLead (t u : FileTree) : Except FileFault FilePlace → Except FileFault FilePlace → Prop
  | .ok p, .ok q => SamePlace t u p q
  | .error _, .error _ => True
  | _, _ => False

theorem sameLead_step (same : t.SameDirectories u) {p q : FilePlace} (places : SamePlace t u p q) (name : String) :
    SameLead t u (t.step p name) (u.step q name) := by
  have blocked {t : FileTree} {p : FilePlace} (closed : p.node? ≠ some .directory) : ∃ fault, t.step p name = .error fault := by
    unfold step
    split
    · exact ⟨_, rfl⟩
    · exact ⟨_, rfl⟩
    · rename_i open'
      exact absurd open' closed
  rcases places.nodes with ⟨left, right⟩ | ⟨left, right, -, -⟩
  · unfold step
    simp only [left, right, places.names]
    split
    · exact places
    · split
      · exact ⟨rfl, .inl ⟨rfl, rfl⟩⟩
      · split
        · trivial
        · refine ⟨rfl, ?_⟩
          by_cases directory : t.node? (p.names ++ [name]) = some .directory
          · exact .inl ⟨directory, (same.nodes _).mpr directory⟩
          · exact .inr ⟨directory, fun found => directory ((same.nodes _).mp found), rfl, rfl⟩
  · obtain ⟨fault, first⟩ := blocked (t := t) left
    obtain ⟨fault', second⟩ := blocked (t := u) right
    rw [first, second]
    trivial

theorem sameLead_locate (same : t.SameDirectories u) (path : String) : SameLead t u (t.locate path) (u.locate path) := by
  have follow (names : List String) {p q : FilePlace} (places : SamePlace t u p q) :
      SameLead t u (names.foldlM t.step p) (names.foldlM u.step q) := by
    induction names generalizing p q with
    | nil => exact places
    | cons name names ih =>
      have first := sameLead_step same places name
      rw [List.foldlM_cons, List.foldlM_cons]
      revert first
      cases t.step p name <;> cases u.step q name <;> intro first
      · trivial
      · exact first.elim
      · exact first.elim
      · exact ih first
  unfold locate
  split
  · trivial
  · split
    · trivial
    · split
      · trivial
      · rw [same.current]
        exact follow _ ⟨rfl, .inl ⟨rfl, rfl⟩⟩

/-- Where a path leads, if it leads to a place for a file. -/
def spot? (t : FileTree) (path : String) : Option (List String) :=
  match t.locate path with
  | .ok place => if place.node? = some .directory then none else some place.names
  | .error _ => none

theorem SameDirectories.spot? (same : t.SameDirectories u) (path : String) : u.spot? path = t.spot? path := by
  have lead := sameLead_locate same path
  unfold FileTree.spot?
  revert lead
  cases t.locate path <;> cases u.locate path <;> intro lead
  · rfl
  · exact lead.elim
  · exact lead.elim
  · obtain ⟨names, ⟨left, right⟩ | ⟨left, right, -, -⟩⟩ := lead
    · simp only [left, right, if_true]
    · simp only [left, right, if_false, names]

theorem locate_of_spot? (h : t.spot? path = some names) :
    t.locate path = .ok ⟨names, t.node? names⟩ ∧ t.node? names ≠ some .directory := by
  have lead := sameLead_locate (.refl t) path
  unfold spot? at h
  cases found : t.locate path with
  | error fault =>
    rw [found] at h
    cases h
  | ok place =>
    rw [found] at h lead
    obtain ⟨own, node?⟩ := place
    simp only at h
    split at h
    · cases h
    · rename_i free
      cases h
      rcases lead.nodes with ⟨left, -⟩ | ⟨-, -, left, -⟩
      · exact absurd left free
      · simp only at left
        rw [← left]
        exact ⟨rfl, free⟩

/-- Where a path leads to a place for a file, it leads to what is at that place. Where it does not, files do not matter. -/
theorem SameDirectories.find? (same : t.SameDirectories u) (path : String) :
    u.find? path = match t.spot? path with
      | some names => u.node? names
      | none => t.find? path := by
  have own := same.spot? path
  split
  · rename_i names spot
    rw [spot] at own
    unfold FileTree.find?
    rw [(locate_of_spot? own).1]
    rfl
  · rename_i none
    have lead := sameLead_locate same path
    unfold FileTree.spot? at none
    unfold FileTree.find?
    revert none lead
    cases t.locate path <;> cases u.locate path <;> intro none lead
    · rfl
    · exact lead.elim
    · exact lead.elim
    · simp only [ite_eq_left_iff, reduceCtorEq, imp_false, not_not] at none
      rcases lead.nodes with ⟨left, right⟩ | ⟨free, -⟩
      · simp only [Except.toOption, Option.bind_some, left, right]
      · exact absurd none free

end FileTree

end CilWeaver
