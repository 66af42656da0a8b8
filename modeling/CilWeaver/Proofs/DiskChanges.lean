import CilWeaver.File.Disk
import CilWeaver.Proofs.FileTrees
import CilWeaver.Proofs.Steps

/-!
Steps that change files: what is found under each path after them, whether they are refused or not. A step changes what one
path leads to, and with it nothing but the paths to the same place.
-/

namespace CilWeaver

open Step

namespace Disk

/-- Why one of the next changes is refused, if it is. -/
def refusal? (d : Disk) (i : Nat) : Option Refusal := d.refusals[i]?.join

/-- The disk after a change. -/
def next (d : Disk) (t : FileTree) : Disk := ⟨t, d.refusals.tail⟩

variable (d : Disk) (t : FileTree) (i : Nat)

@[simp] theorem tree_next : (d.next t).tree = t := rfl

@[simp] theorem refusal?_next : (d.next t).refusal? i = d.refusal? (i + 1) := by
  unfold refusal? next
  rw [List.getElem?_tail]

theorem refusal?_zero : d.refusal? 0 = d.refusals.head?.join := by
  unfold refusal?
  rw [List.head?_eq_getElem?]

end Disk

namespace FileTree

/-- The two paths do not lead to one place for a file. -/
def Apart (t : FileTree) (path other : String) : Prop := ∀ names, t.spot? path = some names → t.spot? other ≠ some names

theorem Apart.symm {t : FileTree} {path other : String} (apart : t.Apart path other) : t.Apart other path :=
  fun names right left => apart names left right

theorem SameDirectories.apart {t u : FileTree} {path other : String} (same : t.SameDirectories u) (apart : t.Apart path other) :
    u.Apart path other := by
  unfold Apart
  rw [same.spot?, same.spot?]
  exact apart

/-- A path leads to something else, and all paths that lead elsewhere lead to what they led to. -/
structure Changes (t u : FileTree) (path : String) (node? : Option FileNode) : Prop where
  directories : t.SameDirectories u
  here : u.find? path = node?
  elsewhere : ∀ other, t.Apart path other → u.find? other = t.find? other

namespace Changes

variable {t u : FileTree} {path : String} {names : List String}

theorem refl (t : FileTree) (path : String) : t.Changes t path (t.find? path) := ⟨.refl t, rfl, fun _ _ => rfl⟩

theorem of_node? (same : t.SameDirectories u) (spot : t.spot? path = some names) {node? : Option FileNode}
    (nodes : ∀ other, u.node? other = if other = names then node? else t.node? other) : t.Changes u path node? := by
  refine ⟨same, ?_, fun other apart => ?_⟩
  · rw [same.find?, spot]
    simp only [nodes, if_true]
  · rw [same.find?, (SameDirectories.refl t).find?]
    cases lead : t.spot? other with
    | none => rfl
    | some others =>
      have away : others ≠ names := fun equal => apart names spot (equal ▸ lead)
      simp only [nodes, away, if_false]

theorem put (spot : t.spot? path = some names) (data : Bytes) : t.Changes (t.put names (.file data)) path (some (.file data)) :=
  of_node? (.put (locate_of_spot? spot).2) spot fun _ => node?_put (locate_of_spot? spot).2 _

theorem erase (spot : t.spot? path = some names) : t.Changes (t.erase names) path none :=
  of_node? (.erase (locate_of_spot? spot).2) spot fun _ => node?_erase (locate_of_spot? spot).2

end Changes

theorem spot?_of_find? {t : FileTree} {path : String} {data : Bytes} (found : t.find? path = some (.file data)) :
    ∃ names, t.spot? path = some names ∧ t.node? names = some (.file data) := by
  unfold find? at found
  cases lead : t.locate path with
  | error fault =>
    rw [lead] at found
    cases found
  | ok place =>
    rw [lead] at found
    change place.node? = _ at found
    have spot : t.spot? path = some place.names := by
      unfold spot?
      rw [lead]
      simp only [found, reduceCtorEq, Option.some.injEq, if_false]
    have located := (locate_of_spot? spot).1
    rw [lead, Except.ok.injEq] at located
    refine ⟨_, spot, ?_⟩
    rw [← found, located]

theorem locate_of_none {t : FileTree} {path : String} (none : t.spot? path = none) :
    (∃ fault, t.locate path = .error fault) ∨ ∃ names, t.locate path = .ok ⟨names, some .directory⟩ := by
  unfold spot? at none
  cases lead : t.locate path with
  | error fault => exact .inl ⟨fault, rfl⟩
  | ok place =>
    rw [lead] at none
    obtain ⟨names, node?⟩ := place
    simp only [ite_eq_left_iff, reduceCtorEq, imp_false, not_not] at none
    subst none
    exact .inr ⟨names, rfl⟩

end FileTree

namespace DiskAction

variable {d : Disk} {path : String} {data : Bytes}

theorem begin_apply (d : Disk) : begin d = .ok (d.refusal? 0) (d.next d.tree) := by
  rw [d.refusal?_zero]
  rfl

theorem locate_apply (d : Disk) (path : String) : locate path d =
    match d.tree.locate path with
    | .ok place => .ok place d
    | .error fault => .error fault d := by
  change (match d.tree.locate path with
    | .ok place => (pure place : DiskAction FilePlace)
    | .error fault => throw fault) d = _
  cases d.tree.locate path <;> rfl

/-- What a path leads to after data was written there and the disk refused it: what it led to before, unless the first bytes
were stored. -/
def leftover (d : Disk) (i : Nat) (path : String) (data : Bytes) : Option FileNode :=
  match d.tree.spot? path, (d.refusal? i).bind (·.stored?) with
  | some _, some size => some (.file (data.take size))
  | _, _ => d.tree.find? path

/-- Whether a change is possible and is not refused. -/
def accepts (d : Disk) (i : Nat) (path : String) : Bool := (d.tree.spot? path).isSome && (d.refusal? i).isNone

theorem write_of_accepts (data : Bytes) (accepted : accepts d 0 path = true) :
    ∃ u, write path data d = .ok () (d.next u) ∧ d.tree.Changes u path (some (.file data)) := by
  obtain ⟨spot, permitted⟩ := Bool.and_eq_true_iff.mp accepted
  obtain ⟨names, spot⟩ := Option.isSome_iff_exists.mp spot
  obtain ⟨located, free⟩ := FileTree.locate_of_spot? spot
  have away : (d.tree.node? names == some .directory) = false := beq_false_of_ne free
  refine ⟨_, ?_, .put spot data⟩
  unfold write
  rw [bind_of_ok (begin_apply d), bind_apply, locate_apply]
  simp only [Disk.tree_next, located, Option.isNone_iff_eq_none.mp permitted, away]
  rfl

/-- A write that is refused, or impossible, leaves what it leaves. -/
theorem write_of_rejects (data : Bytes) (rejected : accepts d 0 path = false) :
    ∃ fault u, write path data d = .error fault (d.next u) ∧ d.tree.Changes u path (leftover d 0 path data) := by
  unfold write leftover
  rw [bind_of_ok (begin_apply d), bind_apply, locate_apply]
  cases spot : d.tree.spot? path with
  | none =>
    rcases FileTree.locate_of_none spot with ⟨fault, located⟩ | ⟨names, located⟩
    · simp only [Disk.tree_next, located]
      exact ⟨fault, d.tree, rfl, .refl ..⟩
    · simp only [Disk.tree_next, located]
      exact ⟨.isADirectory, d.tree, rfl, .refl ..⟩
  | some names =>
    obtain ⟨located, free⟩ := FileTree.locate_of_spot? spot
    have away : (d.tree.node? names == some .directory) = false := beq_false_of_ne free
    unfold accepts at rejected
    rw [spot, Option.isSome_some, Bool.true_and] at rejected
    cases refused : d.refusal? 0 with
    | none =>
      rw [refused] at rejected
      cases rejected
    | some refusal =>
      simp only [Disk.tree_next, located, away, Option.bind_some]
      cases stored : refusal.stored? with
      | none => exact ⟨refusal.fault, d.tree, rfl, .refl ..⟩
      | some size => exact ⟨refusal.fault, _, rfl, .put spot _⟩

/-- Removing a file, which may be refused. -/
theorem remove_of_file (found : d.tree.find? path = some (.file data)) :
    (d.refusal? 0 = none → ∃ u, remove path d = .ok () (d.next u) ∧ d.tree.Changes u path none) ∧
      (d.refusal? 0 ≠ none → ∃ fault, remove path d = .error fault (d.next d.tree)) := by
  obtain ⟨names, spot, node⟩ := FileTree.spot?_of_find? found
  obtain ⟨located, -⟩ := FileTree.locate_of_spot? spot
  unfold remove permit
  constructor
  · intro permitted
    refine ⟨_, ?_, .erase spot⟩
    rw [bind_apply, bind_of_ok (begin_apply d), permitted]
    change (locate path >>= _) (d.next d.tree) = _
    rw [bind_apply, locate_apply]
    simp only [Disk.tree_next, located, node]
    rfl
  · intro refused
    obtain ⟨refusal, refused⟩ := Option.ne_none_iff_exists'.mp refused
    refine ⟨refusal.fault, ?_⟩
    rw [bind_apply, bind_of_ok (begin_apply d), refused]
    rfl

variable {source target : String}

theorem rename_of_accepts (found : d.tree.find? source = some (.file data))
    (accepted : accepts d 0 target = true) : ∃ u v, rename source target d = .ok () (d.next v) ∧
      d.tree.Changes u source none ∧ u.Changes v target (some (.file data)) := by
  obtain ⟨names, spot, node⟩ := FileTree.spot?_of_find? found
  obtain ⟨located, -⟩ := FileTree.locate_of_spot? spot
  obtain ⟨goal, permitted⟩ := Bool.and_eq_true_iff.mp accepted
  obtain ⟨goal, spot'⟩ := Option.isSome_iff_exists.mp goal
  obtain ⟨located', free⟩ := FileTree.locate_of_spot? spot'
  have away : (d.tree.node? goal == some .directory) = false := beq_false_of_ne free
  have erased := FileTree.Changes.erase spot
  refine ⟨_, _, ?_, erased, .put (erased.directories.spot? target ▸ spot') data⟩
  unfold rename permit
  rw [bind_apply, bind_of_ok (begin_apply d), Option.isNone_iff_eq_none.mp permitted]
  change (locate source >>= _) (d.next d.tree) = _
  rw [bind_apply, locate_apply]
  simp only [Disk.tree_next, located, node]
  rw [bind_apply, locate_apply]
  simp only [Disk.tree_next, located', away]
  rfl

theorem rename_of_rejects (found : d.tree.find? source = some (.file data)) (rejected : accepts d 0 target = false) :
    ∃ fault, rename source target d = .error fault (d.next d.tree) := by
  obtain ⟨names, spot, node⟩ := FileTree.spot?_of_find? found
  obtain ⟨located, -⟩ := FileTree.locate_of_spot? spot
  unfold rename permit
  rw [bind_apply, bind_of_ok (begin_apply d)]
  cases refused : d.refusal? 0 with
  | some refusal => exact ⟨refusal.fault, rfl⟩
  | none =>
    unfold accepts at rejected
    rw [refused, Option.isNone_none, Bool.and_true, Option.isSome_eq_false_iff, Option.isNone_iff_eq_none] at rejected
    change ∃ fault, (locate source >>= _) (d.next d.tree) = _
    rw [bind_apply, locate_apply]
    simp only [Disk.tree_next, located, node]
    rw [bind_apply, locate_apply]
    rcases FileTree.locate_of_none rejected with ⟨fault, located'⟩ | ⟨goal, located'⟩
    · simp only [Disk.tree_next, located']
      exact ⟨fault, rfl⟩
    · simp only [Disk.tree_next, located']
      exact ⟨.isADirectory, rfl⟩

end DiskAction

namespace FileTree

/-- The paths lead to these nodes in the second tree, and all paths that lead elsewhere lead to what they led to. -/
structure Reaches (t u : FileTree) (paths : List String) (nodes : List (Option FileNode)) : Prop where
  directories : t.SameDirectories u
  here : paths.map u.find? = nodes
  elsewhere : ∀ path, (∀ own ∈ paths, t.Apart own path) → u.find? path = t.find? path

theorem pairwise_apart {t : FileTree} {paths : List String} (distinct : (paths.map t.spot?).Nodup) : paths.Pairwise t.Apart := by
  refine (List.pairwise_map.mp distinct).imp fun {path other} unequal names left right => ?_
  exact unequal (left.trans right.symm)

namespace Reaches

variable {t u v : FileTree} {paths : List String} {nodes : List (Option FileNode)} {path : String} {node? : Option FileNode}

theorem refl (t : FileTree) (paths : List String) : t.Reaches t paths (paths.map t.find?) := ⟨.refl t, rfl, fun _ _ => rfl⟩

theorem step (reaches : t.Reaches u paths nodes) (apart : paths.Pairwise t.Apart) (i : Nat) (own : paths[i]? = some path)
    (changes : u.Changes v path node?) : t.Reaches v paths (nodes.set i node?) := by
  obtain ⟨inside, rfl⟩ := List.getElem?_eq_some_iff.mp own
  have others (j : Nat) (listed : j < paths.length) (other : i ≠ j) : u.Apart paths[i] paths[j] := by
    apply reaches.directories.apart
    rcases Nat.lt_or_gt_of_ne other with before | behind
    · exact List.pairwise_iff_getElem.mp apart i j inside listed before
    · exact (List.pairwise_iff_getElem.mp apart j i listed inside behind).symm
  refine ⟨reaches.directories.trans changes.directories, ?_, fun other away => ?_⟩
  · rw [← reaches.here]
    apply List.ext_getElem (by simp)
    intro j left right
    rw [List.length_map] at left
    rw [List.getElem_map, List.getElem_set, List.getElem_map]
    split
    · rename_i same
      subst same
      exact changes.here
    · exact changes.elsewhere _ (others j left ‹_›)
  · rw [changes.elsewhere other (reaches.directories.apart (away _ (List.getElem_mem inside))), reaches.elsewhere other away]

theorem find? (reaches : t.Reaches u paths nodes) (i : Nat) (own : paths[i]? = some path) (found : nodes[i]? = some node?) :
    u.find? path = node? := by
  rw [← reaches.here, List.getElem?_map, own] at found
  exact Option.some.inj found

theorem accepts (reaches : t.Reaches u paths nodes) {d d' : Disk} (before : d.tree = t) (after : d'.tree = u) {i j : Nat}
    (refusals : d'.refusal? i = d.refusal? j) (path : String) : DiskAction.accepts d' i path = DiskAction.accepts d j path := by
  unfold DiskAction.accepts
  rw [refusals, before, after, reaches.directories.spot?]

theorem leftover (reaches : t.Reaches u paths nodes) {d d' : Disk} (before : d.tree = t) (after : d'.tree = u) {i j : Nat}
    (refusals : d'.refusal? i = d.refusal? j) (same : u.find? path = t.find? path) (data : Bytes) :
    DiskAction.leftover d' i path data = DiskAction.leftover d j path data := by
  unfold DiskAction.leftover
  rw [refusals, before, after, reaches.directories.spot?, same]

end Reaches

end FileTree

end CilWeaver
