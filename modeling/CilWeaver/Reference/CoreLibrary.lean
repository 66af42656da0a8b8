import CilWeaver.Reference.Catalog

/-!
The part of the core library that is known without an image of it.
-/

namespace CilWeaver

namespace CoreLibrary

/-- The types, by namespace. -/
def types : List (String × List String) :=
  [("System",
    ["Object", "ValueType", "Enum", "Void", "Boolean", "Char", "SByte", "Byte", "Int16",
     "UInt16", "Int32", "UInt32", "Int64", "UInt64", "Single", "Double", "IntPtr", "UIntPtr",
     "String", "Array", "Type", "TypedReference", "RuntimeTypeHandle", "RuntimeMethodHandle",
     "RuntimeFieldHandle", "Delegate", "MulticastDelegate", "Exception",
     "InvalidOperationException", "ArgumentException", "ArgumentNullException",
     "NotSupportedException", "NotImplementedException", "Attribute", "Console", "Math",
     "DateTime", "TimeSpan", "Environment", "IDisposable", "Nullable`1"]),
   ("System.Collections",
    ["IEnumerable", "IEnumerator"]),
   ("System.Collections.Generic",
    ["List`1", "IEnumerable`1", "IEnumerator`1", "Dictionary`2"]),
   ("System.Diagnostics",
    ["DebuggableAttribute", "DebuggableAttribute/DebuggingModes", "Debugger"]),
   ("System.Reflection",
    ["AssemblyTitleAttribute", "AssemblyVersionAttribute", "AssemblyCompanyAttribute",
     "AssemblyConfigurationAttribute", "AssemblyFileVersionAttribute",
     "AssemblyInformationalVersionAttribute", "AssemblyProductAttribute"]),
   ("System.Runtime.CompilerServices",
    ["CompilationRelaxationsAttribute", "RuntimeCompatibilityAttribute",
     "CompilerGeneratedAttribute", "NullableAttribute", "NullableContextAttribute",
     "RuntimeHelpers"]),
   ("System.Runtime.Versioning",
    ["TargetFrameworkAttribute"]),
   ("System.Text",
    ["StringBuilder"])]

/-- A method with a normalized signature. -/
def method (name signature : String) : String × MemberKind × String := (name, .method, signature)

/-- A field with a normalized signature. -/
def field (name signature : String) : String × MemberKind × String := (name, .field, signature)

/-- The members, by namespace and name of their type. -/
def members : List ((String × String) × List (String × MemberKind × String)) :=
  [(("System", "Object"),
    [method ".ctor" "instance void()",
     method "ToString" "instance string()",
     method "Equals" "instance bool(object)",
     method "GetHashCode" "instance int32()",
     method "GetType" "instance System.Type()"]),
   (("System", "Attribute"),
    [method ".ctor" "instance void()"]),
   (("System", "Exception"),
    [method ".ctor" "instance void()",
     method ".ctor" "instance void(string)",
     method "get_Message" "instance string()"]),
   (("System", "InvalidOperationException"),
    [method ".ctor" "instance void(string)"]),
   (("System", "ArgumentException"),
    [method ".ctor" "instance void(string)"]),
   (("System", "ArgumentNullException"),
    [method ".ctor" "instance void(string)"]),
   (("System", "NotSupportedException"),
    [method ".ctor" "instance void()"]),
   (("System", "NotImplementedException"),
    [method ".ctor" "instance void()"]),
   (("System", "Console"),
    [method "WriteLine" "void()",
     method "WriteLine" "void(string)",
     method "WriteLine" "void(object)",
     method "WriteLine" "void(int32)",
     method "WriteLine" "void(bool)",
     method "WriteLine" "void(string,object)",
     method "WriteLine" "void(string,object,object)",
     method "Write" "void(string)",
     method "Write" "void(object)",
     method "ReadLine" "string()"]),
   (("System", "String"),
    [method "Concat" "string(string,string)",
     method "Concat" "string(string,string,string)",
     method "Concat" "string(object,object)",
     method "Format" "string(string,object)",
     method "Format" "string(string,object,object)",
     method "get_Length" "instance int32()",
     method "op_Equality" "bool(string,string)",
     method "IsNullOrEmpty" "bool(string)",
     field "Empty" "string"]),
   (("System", "Int32"),
    [method "ToString" "instance string()",
     method "Parse" "int32(string)",
     field "MaxValue" "int32",
     field "MinValue" "int32"]),
   (("System", "Math"),
    [method "Max" "int32(int32,int32)",
     method "Min" "int32(int32,int32)",
     method "Abs" "int32(int32)"]),
   (("System", "DateTime"),
    [method "get_Now" "System.DateTime()",
     method "get_TimeOfDay" "instance System.TimeSpan()"]),
   (("System", "TimeSpan"),
    [method "get_TotalSeconds" "instance float64()"]),
   (("System", "Environment"),
    [method "get_TickCount" "int32()",
     method "get_NewLine" "string()"]),
   (("System.Diagnostics", "Debugger"),
    [method "Break" "void()",
     method "get_IsAttached" "bool()"]),
   (("System.Diagnostics", "DebuggableAttribute"),
    [method ".ctor" "instance void(System.Diagnostics.DebuggableAttribute/DebuggingModes)"]),
   (("System.Runtime.CompilerServices", "CompilationRelaxationsAttribute"),
    [method ".ctor" "instance void(int32)"]),
   (("System.Runtime.CompilerServices", "RuntimeCompatibilityAttribute"),
    [method ".ctor" "instance void()",
     method "set_WrapNonExceptionThrows" "instance void(bool)"]),
   (("System.Runtime.CompilerServices", "CompilerGeneratedAttribute"),
    [method ".ctor" "instance void()"]),
   (("System.Runtime.CompilerServices", "NullableAttribute"),
    [method ".ctor" "instance void(uint8)"]),
   (("System.Runtime.CompilerServices", "NullableContextAttribute"),
    [method ".ctor" "instance void(uint8)"]),
   (("System.Runtime.Versioning", "TargetFrameworkAttribute"),
    [method ".ctor" "instance void(string)",
     method "set_FrameworkDisplayName" "instance void(string)"]),
   (("System.Text", "StringBuilder"),
    [method ".ctor" "instance void()",
     method "Append" "instance System.Text.StringBuilder(string)",
     method "ToString" "instance string()"])]

def catalog : Catalog :=
  let types := types.flatMap fun (namespaceName, names) =>
    names.map fun name => (⟨AssemblyName.coreLibrary, namespaceName, name⟩ : TypeName)
  let members := members.flatMap fun ((namespaceName, name), members) =>
    members.map fun (member, kind, signature) =>
      (⟨⟨AssemblyName.coreLibrary, namespaceName, name⟩, member, kind, signature⟩ : MemberName)
  members.foldl Catalog.addMember (types.foldl Catalog.addType {})

end CoreLibrary

end CilWeaver
