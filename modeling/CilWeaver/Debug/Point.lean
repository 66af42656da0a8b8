/-!
Points that tie code to source lines. The type of places in code is a parameter: a body names the
index of an instruction, stored points the offset of a byte.
-/

namespace CilWeaver

/-- The source lines of the code from `place` on, up to the next point. -/
structure PointAt (τ : Type) where
  place : τ
  document : UInt32
  startLine : UInt32
  startColumn : UInt16
  endLine : UInt32
  endColumn : UInt16
deriving DecidableEq

namespace PointAt

variable {τ σ : Type}

/-- The line that marks code without source lines. -/
def hiddenLine : UInt32 := 0x00FEEFEE

/-- The last line of a document. -/
def maxLine : Nat := 0x1FFFFFFF

/-- The point of code without source lines. -/
def hidden (place : τ) (document : UInt32) : PointAt τ :=
  ⟨place, document, hiddenLine, 0, hiddenLine, 0⟩

def isHidden (p : PointAt τ) : Bool := p.startLine == hiddenLine

def map (f : τ → σ) (p : PointAt τ) : PointAt σ := { p with place := f p.place }

@[simp] theorem isHidden_map (f : τ → σ) (p : PointAt τ) : (p.map f).isHidden = p.isHidden := rfl

@[simp] theorem map_hidden (f : τ → σ) (place : τ) (document : UInt32) :
    (hidden place document).map f = hidden (f place) document := rfl

end PointAt

/-- A point whose place is a byte offset. -/
abbrev SequencePoint := PointAt UInt32

/-- A point whose place is the index of an instruction. -/
abbrev SourcePoint := PointAt Nat

end CilWeaver
