import CilWeaver.Module.Basic
import CilWeaver.Weave.TimeOfDay

/-!
Weaving: each marker method answers a time of day, whatever its body did before. The report lists
the methods that were woven and those that have no body.
-/

namespace CilWeaver

/-- What happens to the code behind the woven instructions, which is never reached. -/
inductive DeadCodePolicy where
  | preserve
  | strip
deriving DecidableEq, Repr

namespace DeadCodePolicy

instance : Inhabited DeadCodePolicy := ⟨preserve⟩

def ofText? : String → Option DeadCodePolicy
  | "preserve" => some preserve
  | "strip" => some strip
  | _ => none

def text : DeadCodePolicy → String
  | preserve => "preserve"
  | strip => "strip"

end DeadCodePolicy

structure WovenMethod where
  typeName : String
  method : String
  token : Token
deriving DecidableEq

structure WeaveReport where
  time : TimeOfDay
  methods : List WovenMethod
  skipped : List WovenMethod
deriving DecidableEq

namespace WeaveReport

def constant (r : WeaveReport) : Int32 := r.time.constant

def isEmpty (r : WeaveReport) : Bool := r.methods.isEmpty

end WeaveReport

/-- The name of the methods that are woven. -/
def markerName : String := "_Debug_Weaver"

def MethodDef.isMarker (d : MethodDef) : Bool := d.name == markerName

/-- The instructions that answer a time. -/
def prologue (time : TimeOfDay) : List Instruction := [.ldcI4 time.constant, .ret]

namespace MethodBody

/-- The document of the first source point. -/
def firstDocument? (b : MethodBody) : Option UInt32 :=
  b.symbols?.bind fun symbols => symbols.points.head?.map (·.document)

/-- Moves the body behind the prologue. The prologue belongs to no source line of the document that
    the body starts in. -/
def weavePreserving (time : TimeOfDay) (b : MethodBody) : MethodBody :=
  let code := prologue time
  let moved := b.renumber (shift 0 code.length)
  let symbols? := moved.symbols?.map fun symbols =>
    { symbols with
      points := (b.firstDocument?.map (PointAt.hidden 0)).toList ++ symbols.points }
  { moved with code := code ++ moved.code, symbols? }

/-- Replaces the body by the prologue. -/
def weaveStripping (time : TimeOfDay) (b : MethodBody) : MethodBody :=
  let symbols? := b.symbols?.bind fun symbols =>
    b.firstDocument?.map fun document => { symbols with points := [.hidden 0 document] }
  { b with code := prologue time, regions := [], symbols? }

def weave (time : TimeOfDay) : DeadCodePolicy → MethodBody → MethodBody
  | .preserve => weavePreserving time
  | .strip => weaveStripping time

end MethodBody

namespace MethodDef

def weave (time : TimeOfDay) (policy : DeadCodePolicy) (d : MethodDef) : MethodDef :=
  if d.isMarker then { d with body? := d.body?.map (MethodBody.weave time policy) } else d

end MethodDef

namespace Module

/-- The module with all marker methods woven. -/
def weaveMarkers (m : Module) (time : TimeOfDay) (policy : DeadCodePolicy) : Module :=
  { m with
    types := m.types.map fun t =>
      { t with methods := t.methods.map (MethodDef.weave time policy) } }

/-- The marker methods that have a body, or those that have none. -/
def markers (m : Module) (withBody : Bool) : List WovenMethod :=
  (m.methods.filter fun (_, _, d) => d.isMarker && d.body?.isSome == withBody).map
    fun (token, t, d) => ⟨t.fullName, d.name, token⟩

def weaveReport (m : Module) (time : TimeOfDay) : WeaveReport :=
  ⟨time, m.markers true, m.markers false⟩

/-- Weaves a module, and reports what was done. -/
def weave (m : Module) (time : TimeOfDay) (policy : DeadCodePolicy) : Module × WeaveReport :=
  (m.weaveMarkers time policy, m.weaveReport time)

end Module

end CilWeaver
