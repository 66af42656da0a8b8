import CilWeaver.CommandLine.WriteBack
import CilWeaver.Proofs.DiskChanges

/-!
Two files that are to be replaced, both or neither of them. Whatever the disk refuses, the outcome is one of five, and the last
failure of them leaves one file replaced. It is all or nothing iff a refused write leaves nothing of its data, the staged file
can be removed after it, and the two replacements succeed.
-/

namespace CilWeaver

open Step

namespace FileChange

variable {d : Disk} {first second c : FileChange} {staged changes : List FileChange}

theorem doing_apply {α : Type} (context : String) (action : DiskAction α) (d : Disk) : doing context action d =
    match action d with
    | .ok a d => .ok a d
    | .error fault d => .error ⟨context, .disk fault⟩ d := by
  change EStateM.adaptExcept _ action d = _
  unfold EStateM.adaptExcept
  cases action d <;> rfl

theorem tryCatch_apply {α : Type} (x : RunAction α) (handle : RunFault → RunAction α) (d : Disk) : tryCatch x handle d =
    match x d with
    | .ok a d => .ok a d
    | .error fault d => handle fault d := by
  change EStateM.tryCatch x handle d = _
  unfold EStateM.tryCatch
  cases x d <;> rfl

/-- The first of the files that are to be staged. If it cannot be written, the ones that are staged are removed. -/
def stageFirst (staged : List FileChange) (c : FileChange) : RunAction Unit :=
  tryCatch (doing s!"failed to write {c.path}" (DiskAction.write c.stagingPath c.data)) fun fault => do
    staged.forM (tryRemove ·.stagingPath)
    throw fault

theorem stage_cons : stage staged (c :: changes) = stageFirst staged c >>= fun _ => stage (staged ++ [c]) changes := rfl

theorem stage_of_ok {d' : Disk} (written : DiskAction.write c.stagingPath c.data d = .ok () d') :
    stage staged (c :: changes) d = stage (staged ++ [c]) changes d' := by
  have tried : stageFirst staged c d = .ok () d' := by
    rw [stageFirst, tryCatch_apply, doing_apply, written]
  rw [stage_cons, bind_of_ok tried]

theorem stage_of_error {fault : FileFault} {d' d'' : Disk}
    (refused : DiskAction.write c.stagingPath c.data d = .error fault d')
    (removed : (staged.forM (tryRemove ·.stagingPath) : RunAction Unit) d' = .ok () d'') :
    stage staged (c :: changes) d = .error ⟨s!"failed to write {c.path}", .disk fault⟩ d'' := by
  have tried : stageFirst staged c d = .error ⟨s!"failed to write {c.path}", .disk fault⟩ d'' := by
    rw [stageFirst, tryCatch_apply, doing_apply, refused]
    exact bind_of_ok removed _
  rw [stage_cons, bind_apply, tried]

theorem replace_apply (c : FileChange) (d : Disk) : replace c d =
    match DiskAction.rename c.stagingPath c.path d with
    | .ok _ d => .ok () d
    | .error fault d => .error ⟨s!"failed to replace {c.path}", .disk fault⟩ d := by
  unfold replace
  rw [doing_apply]
  cases DiskAction.rename c.stagingPath c.path d <;> rfl

theorem tryRemove_apply (path : String) (d : Disk) : tryRemove path d =
    match DiskAction.remove path d with
    | .ok _ d | .error _ d => .ok () d := rfl

/-! The outcome -/

/-- The paths of two changes: for each of them the staged file, and the file that it is to replace. -/
def paths (first second : FileChange) : List String := [first.stagingPath, first.path, second.stagingPath, second.path]

open DiskAction in
/-- What fails of two changes, and what their paths lead to in the end. -/
def report (d : Disk) (first second : FileChange) : Option String × List (Option FileNode) :=
  let before := d.tree.find?
  if accepts d 0 first.stagingPath = false then
    (some s!"failed to write {first.path}",
      [leftover d 0 first.stagingPath first.data, before first.path, before second.stagingPath, before second.path])
  else if accepts d 1 second.stagingPath = false then
    (some s!"failed to write {second.path}",
      [if d.refusal? 2 = none then none else some (.file first.data), before first.path,
        leftover d 1 second.stagingPath second.data, before second.path])
  else if accepts d 2 first.path = false then
    (some s!"failed to replace {first.path}",
      [some (.file first.data), before first.path, some (.file second.data), before second.path])
  else if accepts d 3 second.path = false then
    (some s!"failed to replace {second.path}",
      [none, some (.file first.data), some (.file second.data), before second.path])
  else (none, [none, some (.file first.data), none, some (.file second.data)])

/-- How a run ends: well, or with a failure of what it did at that time. -/
def Ends (result : EStateM.Result RunFault Disk Unit) (context? : Option String) (d : Disk) : Prop :=
  match context? with
  | none => result = .ok () d
  | some context => ∃ cause, result = .error ⟨context, cause⟩ d

theorem writeBack_of_ok {changes : List FileChange} {d' : Disk} (staged : stage [] changes d = .ok () d') :
    writeBack changes d = changes.forM replace d' := bind_of_ok staged _

theorem writeBack_of_error {changes : List FileChange} {fault : RunFault} {d' : Disk}
    (staged : stage [] changes d = .error fault d') : writeBack changes d = .error fault d' := bind_of_error staged _

theorem forM_replace_of_ok {c : FileChange} {changes : List FileChange} {d' : Disk} (replaced : replace c d = .ok () d') :
    (c :: changes).forM replace d = changes.forM replace d' := bind_of_ok replaced _

theorem forM_replace_of_error {c : FileChange} {changes : List FileChange} {fault : RunFault} {d' : Disk}
    (replaced : replace c d = .error fault d') : (c :: changes).forM replace d = .error fault d' := bind_of_error replaced _

variable (apart : (paths first second).Pairwise d.tree.Apart)

include apart

theorem stage_first_rejected (rejected : DiskAction.accepts d 0 first.stagingPath = false) : ∃ cause d',
    stage [] [first, second] d = .error ⟨s!"failed to write {first.path}", cause⟩ d' ∧
      d.tree.Reaches d'.tree (paths first second) [DiskAction.leftover d 0 first.stagingPath first.data,
        d.tree.find? first.path, d.tree.find? second.stagingPath, d.tree.find? second.path] := by
  obtain ⟨fault, u, written, changes⟩ := DiskAction.write_of_rejects first.data rejected
  exact ⟨.disk fault, d.next u, stage_of_error written rfl, (FileTree.Reaches.refl d.tree _).step apart 0 rfl changes⟩

theorem stage_second_rejected (accepted : DiskAction.accepts d 0 first.stagingPath = true)
    (rejected : DiskAction.accepts d 1 second.stagingPath = false) : ∃ cause d',
    stage [] [first, second] d = .error ⟨s!"failed to write {second.path}", cause⟩ d' ∧
      d.tree.Reaches d'.tree (paths first second) [if d.refusal? 2 = none then none else some (.file first.data),
        d.tree.find? first.path, DiskAction.leftover d 1 second.stagingPath second.data, d.tree.find? second.path] := by
  obtain ⟨u, written, changes⟩ := DiskAction.write_of_accepts first.data accepted
  have reached := (FileTree.Reaches.refl d.tree _).step apart 0 rfl changes
  have same : u.find? second.stagingPath = d.tree.find? second.stagingPath := reached.find? 2 rfl rfl
  rw [← reached.accepts rfl (d.tree_next u) (d.refusal?_next u 0)] at rejected
  obtain ⟨fault, v, written', changes⟩ := DiskAction.write_of_rejects second.data rejected
  rw [reached.leftover rfl (d.tree_next u) (d.refusal?_next u 0) same] at changes
  have reached := reached.step apart 2 rfl changes
  -- the first file is still there to be removed, whatever is left of the second one
  have found : v.find? first.stagingPath = some (.file first.data) := reached.find? 0 rfl rfl
  obtain ⟨removed, kept⟩ := DiskAction.remove_of_file (d := (d.next u).next v) found
  simp only [Disk.refusal?_next] at removed kept
  have cleaned {w : Disk} (h : tryRemove first.stagingPath ((d.next u).next v) = .ok () w) :
      stage [] [first, second] d = .error ⟨s!"failed to write {second.path}", .disk fault⟩ w := by
    rw [stage_of_ok written]
    exact stage_of_error written' (bind_of_ok h _)
  split
  · rename_i permitted
    obtain ⟨w, removed, changes⟩ := removed permitted
    refine ⟨.disk fault, ((d.next u).next v).next w, cleaned ?_, reached.step apart 0 rfl changes⟩
    rw [tryRemove_apply, removed]
  · rename_i refused
    obtain ⟨fault', kept⟩ := kept refused
    refine ⟨.disk fault, ((d.next u).next v).next v, cleaned ?_, reached⟩
    rw [tryRemove_apply, kept]
    rfl

theorem stage_accepted (accepted : DiskAction.accepts d 0 first.stagingPath = true)
    (accepted' : DiskAction.accepts d 1 second.stagingPath = true) : ∃ d', stage [] [first, second] d = .ok () d' ∧
      (∀ i, d'.refusal? i = d.refusal? (i + 2)) ∧ d.tree.Reaches d'.tree (paths first second)
        [some (.file first.data), d.tree.find? first.path, some (.file second.data), d.tree.find? second.path] := by
  obtain ⟨u, written, changes⟩ := DiskAction.write_of_accepts first.data accepted
  have reached := (FileTree.Reaches.refl d.tree _).step apart 0 rfl changes
  rw [← reached.accepts rfl (d.tree_next u) (d.refusal?_next u 0)] at accepted'
  obtain ⟨v, written', changes⟩ := DiskAction.write_of_accepts second.data accepted'
  refine ⟨(d.next u).next v, ?_, fun i => by simp only [Disk.refusal?_next], reached.step apart 2 rfl changes⟩
  rw [stage_of_ok written, stage_of_ok written']
  rfl

/-- A staged file takes the place of another one. -/
theorem replace_accepted {e : Disk} {c : FileChange} {nodes : List (Option FileNode)} {i j : Nat}
    (reached : d.tree.Reaches e.tree (paths first second) nodes) (staged : (paths first second)[i]? = some c.stagingPath)
    (own : (paths first second)[j]? = some c.path) (found : nodes[i]? = some (some (.file c.data)))
    (accepted : DiskAction.accepts e 0 c.path = true) : ∃ u, replace c e = .ok () (e.next u) ∧
      d.tree.Reaches u (paths first second) ((nodes.set i none).set j (some (.file c.data))) := by
  obtain ⟨u, v, renamed, erased, put⟩ := DiskAction.rename_of_accepts (reached.find? i staged found) accepted
  refine ⟨v, ?_, (reached.step apart i staged erased).step apart j own put⟩
  rw [replace_apply, renamed]

omit apart in
theorem replace_rejected {e : Disk} {c : FileChange} (found : e.tree.find? c.stagingPath = some (.file c.data))
    (rejected : DiskAction.accepts e 0 c.path = false) :
    ∃ cause, replace c e = .error ⟨s!"failed to replace {c.path}", cause⟩ (e.next e.tree) := by
  obtain ⟨fault, renamed⟩ := DiskAction.rename_of_rejects found rejected
  refine ⟨.disk fault, ?_⟩
  rw [replace_apply, renamed]

theorem writeBack_report : ∃ d', Ends (writeBack [first, second] d) (report d first second).1 d' ∧
    d.tree.Reaches d'.tree (paths first second) (report d first second).2 := by
  unfold report
  dsimp only
  split
  · rename_i rejected
    obtain ⟨cause, d', staged, reached⟩ := stage_first_rejected apart rejected
    exact ⟨d', ⟨cause, writeBack_of_error staged⟩, reached⟩
  rename_i accepted
  rw [Bool.not_eq_false] at accepted
  split
  · rename_i rejected
    obtain ⟨cause, d', staged, reached⟩ := stage_second_rejected apart accepted rejected
    exact ⟨d', ⟨cause, writeBack_of_error staged⟩, reached⟩
  rename_i accepted'
  rw [Bool.not_eq_false] at accepted'
  obtain ⟨e, staged, refusals, reached⟩ := stage_accepted apart accepted accepted'
  rw [writeBack_of_ok staged, ← reached.accepts rfl rfl (refusals 0)]
  split
  · rename_i rejected
    obtain ⟨cause, replaced⟩ := replace_rejected (reached.find? 0 rfl rfl) rejected
    exact ⟨e.next e.tree, ⟨cause, forM_replace_of_error replaced⟩, reached⟩
  rename_i replaceable
  rw [Bool.not_eq_false] at replaceable
  obtain ⟨u, replaced, reached⟩ := replace_accepted apart (i := 0) (j := 1) reached rfl rfl rfl replaceable
  rw [← reached.accepts rfl (e.tree_next u) ((e.refusal?_next u 0).trans (refusals 1))]
  split
  · rename_i rejected
    obtain ⟨cause, replaced'⟩ := replace_rejected (e := e.next u) (reached.find? 2 rfl rfl) rejected
    exact ⟨(e.next u).next u, ⟨cause, (forM_replace_of_ok replaced).trans (forM_replace_of_error replaced')⟩, reached⟩
  · rename_i replaceable'
    rw [Bool.not_eq_false] at replaceable'
    obtain ⟨v, replaced', reached⟩ := replace_accepted (e := e.next u) apart (i := 2) (j := 3) reached rfl rfl rfl replaceable'
    exact ⟨(e.next u).next v, (forM_replace_of_ok replaced).trans (forM_replace_of_ok replaced'), reached⟩

omit apart

/-- The two files are replaced, or nothing happened to them; and no staged file is left. -/
def AllOrNothing (t : FileTree) (first second : FileChange) : EStateM.Result RunFault Disk Unit → Prop
  | .ok _ d => (paths first second).map d.tree.find? = [none, some (.file first.data), none, some (.file second.data)]
  | .error _ d => (paths first second).map d.tree.find? = [none, t.find? first.path, none, t.find? second.path]

open DiskAction in
/-- A file that cannot be written leaves nothing behind and what was staged before can be removed, or both files can be staged
and nothing fails after that. -/
def Clean (d : Disk) (first second : FileChange) : Prop :=
  if accepts d 0 first.stagingPath = false then
    leftover d 0 first.stagingPath first.data = none ∧ d.tree.find? second.stagingPath = none
  else if accepts d 1 second.stagingPath = false then
    d.refusal? 2 = none ∧ leftover d 1 second.stagingPath second.data = none
  else accepts d 2 first.path = true ∧ accepts d 3 second.path = true

theorem allOrNothing_iff {result : EStateM.Result RunFault Disk Unit} {d' : Disk}
    (ends : Ends result (report d first second).1 d')
    (reached : (paths first second).map d'.tree.find? = (report d first second).2) :
    AllOrNothing d.tree first second result ↔ Clean d first second := by
  -- each failure leaves its own nodes, and only those of two failures can be what there was before
  have failed {context : String} {nodes : List (Option FileNode)} (h : ∃ cause, result = .error ⟨context, cause⟩ d')
      (here : (paths first second).map d'.tree.find? = nodes) : AllOrNothing d.tree first second result ↔
        nodes = [none, d.tree.find? first.path, none, d.tree.find? second.path] := by
    obtain ⟨cause, rfl⟩ := h
    rw [← here]
    rfl
  unfold report at ends reached
  unfold Clean
  dsimp only at ends reached
  split at ends
  · rename_i rejected
    rw [if_pos rejected] at reached ⊢
    rw [failed ends reached]
    simp
  rename_i accepted
  rw [if_neg accepted] at reached ⊢
  split at ends
  · rename_i rejected
    rw [if_pos rejected] at reached ⊢
    rw [failed ends reached]
    simp
  rename_i accepted'
  rw [if_neg accepted'] at reached ⊢
  split at ends
  · rename_i rejected
    rw [if_pos rejected] at reached
    rw [failed ends reached, rejected]
    simp
  rename_i replaceable
  rw [if_neg replaceable] at reached
  split at ends
  · rename_i rejected
    rw [if_pos rejected] at reached
    rw [failed ends reached, rejected]
    simp
  · rename_i replaceable'
    rw [if_neg replaceable'] at reached
    cases ends
    simp only [Bool.not_eq_false] at replaceable replaceable'
    exact iff_of_true reached ⟨replaceable, replaceable'⟩

/-- Whatever there is on the disk and whichever changes it refuses, two changes whose paths lead to different places end as
reported. All other paths lead to what they led to. It is all or nothing iff no part of a refused write is stored, the file
that was staged before can be removed, and neither replacement fails. -/
theorem writeBack_outcome (apart : (paths first second).Pairwise d.tree.Apart) :
    (∃ d', Ends (writeBack [first, second] d) (report d first second).1 d' ∧
      (paths first second).map d'.tree.find? = (report d first second).2 ∧
      ∀ path, (∀ own ∈ paths first second, d.tree.Apart own path) → d'.tree.find? path = d.tree.find? path) ∧
    (AllOrNothing d.tree first second (writeBack [first, second] d) ↔ Clean d first second) := by
  obtain ⟨d', ends, reached⟩ := writeBack_report apart
  exact ⟨⟨d', ends, reached.here, reached.elsewhere⟩, allOrNothing_iff ends reached.here⟩

end FileChange

namespace Sample

/-- Two changes of files in one directory. -/
def changedModule : FileChange := ⟨"a.dll", [3]⟩

def changedSymbols : FileChange := ⟨"a.pdb", [4]⟩

/-- A directory with a module, and with something under the name of its symbols. -/
def directory (symbols : FileNode) : FileTree := { nodes := [(["a.dll"], .file [1]), (["a.pdb"], symbols)] }

theorem paths_changed : FileChange.paths changedModule changedSymbols =
    ["a.dll.dotweave-tmp", "a.dll", "a.pdb.dotweave-tmp", "a.pdb"] := by
  decide +kernel

theorem locate_changed (symbols : FileNode) : (["a.dll.dotweave-tmp", "a.dll", "a.pdb.dotweave-tmp", "a.pdb"].map
    (directory symbols).locate) = [.ok ⟨["a.dll.dotweave-tmp"], none⟩, .ok ⟨["a.dll"], some (.file [1])⟩,
      .ok ⟨["a.pdb.dotweave-tmp"], none⟩, .ok ⟨["a.pdb"], some symbols⟩] := by
  have lead (path : String) (single : '/' ∉ path.toList) (plain : path.contains '\x00' = false) (filled : path.isEmpty = false)
      (short : path.utf8ByteSize ≤ FileTree.maxPathSize) (relative : path.startsWith "/" = false) :=
    FileTree.locate_single (t := directory symbols) single plain filled short relative
  simp only [List.map_cons, List.map_nil]
  rw [lead _ (by simp) (by simp) (by decide) (by decide +kernel) (by decide +kernel),
    lead _ (by simp) (by simp) (by decide) (by decide +kernel) (by decide +kernel),
    lead _ (by simp) (by simp) (by decide) (by decide +kernel) (by decide +kernel),
    lead _ (by simp) (by simp) (by decide) (by decide +kernel) (by decide +kernel)]
  rfl

theorem spots_changed (symbols : FileNode) : (directory symbols).spot? "a.dll.dotweave-tmp" = some ["a.dll.dotweave-tmp"] ∧
    (directory symbols).spot? "a.dll" = some ["a.dll"] ∧
    (directory symbols).spot? "a.pdb.dotweave-tmp" = some ["a.pdb.dotweave-tmp"] ∧
    (directory symbols).spot? "a.pdb" = if symbols = .directory then none else some ["a.pdb"] := by
  have located := locate_changed symbols
  simp only [List.map_cons, List.map_nil, List.cons.injEq, and_true] at located
  obtain ⟨stagedModule, module, stagedSymbols, symbols⟩ := located
  unfold FileTree.spot?
  simp only [stagedModule, module, stagedSymbols, symbols]
  simp

theorem apart_changed (symbols : FileNode) :
    (FileChange.paths changedModule changedSymbols).Pairwise (directory symbols).Apart := by
  apply FileTree.pairwise_apart
  obtain ⟨stagedModule, module, stagedSymbols, own⟩ := spots_changed symbols
  rw [paths_changed]
  simp only [List.map_cons, List.map_nil, stagedModule, module, stagedSymbols, own]
  split <;> decide

/-- A disk with these files that refuses these changes. -/
def disk (symbols : FileNode) (refusals : List (Option Refusal)) : Disk := ⟨directory symbols, refusals⟩

theorem stagingPath_changed :
    changedModule.stagingPath = "a.dll.dotweave-tmp" ∧ changedSymbols.stagingPath = "a.pdb.dotweave-tmp" := by
  decide +kernel

end Sample

open Sample DiskAction in
theorem FileChange.writeBack_outcome_sample :
    (paths changedModule changedSymbols).Pairwise (disk (.file [2]) []).tree.Apart ∧
      AllOrNothing (directory (.file [2])) changedModule changedSymbols
        (writeBack [changedModule, changedSymbols] (disk (.file [2]) [])) := by
  obtain ⟨stagedModule, module, stagedSymbols, symbols⟩ := spots_changed (.file [2])
  have accepted {i : Nat} {path : String} {names : List String} (spot : (directory (.file [2])).spot? path = some names) :
      accepts (disk (.file [2]) []) i path = true := by
    unfold accepts
    rw [disk, spot]
    rfl
  have outcome := (writeBack_outcome (d := disk (.file [2]) []) (apart_changed _)).2
  refine ⟨apart_changed _, outcome.mpr ?_⟩
  unfold Clean
  rw [stagingPath_changed.1, stagingPath_changed.2, accepted stagedModule, accepted stagedSymbols]
  exact ⟨accepted module, accepted symbols⟩

open Sample DiskAction in
/-- The symbols are a directory that cannot be replaced, after the module was; or the first write stores a part of its data. -/
theorem FileChange.writeBack_leaves_half :
    ¬AllOrNothing (directory .directory) changedModule changedSymbols
        (writeBack [changedModule, changedSymbols] (disk .directory [])) ∧
      ¬AllOrNothing (directory (.file [2])) changedModule changedSymbols
        (writeBack [changedModule, changedSymbols] (disk (.file [2]) [some { fault := .other, stored? := some 0 }])) := by
  constructor
  · obtain ⟨d', ends, reached⟩ := writeBack_report (d := disk .directory []) (apart_changed _)
    intro held
    have clean := (allOrNothing_iff ends reached.here).mp held
    obtain ⟨stagedModule, module, stagedSymbols, symbols⟩ := spots_changed .directory
    have own : changedSymbols.path = "a.pdb" := rfl
    unfold Clean accepts at clean
    simp [disk, stagingPath_changed, stagedModule, stagedSymbols, Disk.refusal?, own, symbols] at clean
  · obtain ⟨d', ends, reached⟩ := writeBack_report (d := disk (.file [2]) [some { fault := .other, stored? := some 0 }])
      (apart_changed _)
    intro held
    have clean := (allOrNothing_iff ends reached.here).mp held
    obtain ⟨stagedModule, module, stagedSymbols, symbols⟩ := spots_changed (.file [2])
    unfold Clean accepts leftover at clean
    simp [disk, stagingPath_changed, stagedModule, Disk.refusal?] at clean

end CilWeaver
