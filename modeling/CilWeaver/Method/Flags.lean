/-!
The flag words of a method.
-/

namespace CilWeaver

namespace MethodFlags

def accessMask : UInt16 := 0x0007

/-- Static, final, virtual, hidden by signature, new slot, abstract, special name, platform invoke
    and runtime special name. -/
def modifierMask : UInt16 := 0x3DF0

def staticBit : UInt16 := 0x0010

def access (flags : UInt16) : UInt16 := flags &&& accessMask

def modifiers (flags : UInt16) : UInt16 := flags &&& modifierMask

def isStatic (flags : UInt16) : Bool := flags &&& staticBit != 0

/-- The kind of code, from the implementation flags of a method. -/
def codeKind (implFlags : UInt16) : UInt16 := implFlags &&& 0x0003

end MethodFlags

end CilWeaver
