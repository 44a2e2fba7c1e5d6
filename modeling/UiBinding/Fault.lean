import UiBinding.Conversion
import UiBinding.Diagnostic
import UiBinding.Native.Wrap
import UiBinding.Tree

namespace UiBinding

inductive Fault
  | foreignKind (kind : String) (e : Expr)
  | invalid (e : Expr)
  | uncompiled (e : Expr)
  | signalAsValue (name : String) (e : Expr)
  | fieldOf (kind name : String) (e : Expr)
  | notASignal (e : Expr)
  | unknownSignal (element name : String) (e : Expr)
  | assignmentTarget (kind : String) (op : AssignOp) (e : Expr)
  | assignmentOperands (current : String) (op : AssignOp) (operand name : String) (e : Expr)
  | binaryOperands (left : String) (op : BinaryOp) (right : String) (e : Expr)
  | unaryOperand (op : UnaryOp) (kind : String) (e : Expr)
  | conditionNotBool (e : Expr)
  | unknownElement (index : Int) (e : Option Expr)
  | noOwner (element component : String) (visited : List String) (e : Option Expr)
  | chainTooDeep (limit : Int) (element : String) (e : Option Expr)
  | notAnItem (component element name : String) (e : Expr)
  | unknownProperty (item element name : String) (e : Expr)
  | notRepeating (component element name : String) (e : Expr)
  | wrongInstance (actual expected element name : String) (e : Expr)
  | notRepeated (component element name : String) (e : Expr)
  | propertyAsSignal (element name : String)
  | notAProperty (slot : Int) (held : String) (item : Option String) (name : String)
  | wrongItem (owner name : String) (item : Option String)
  | rejected (owner name : String) (type : StorageType) (failure : ConversionFailure)
  | notStorable (type name : String)
  | segmentField (shape : SegmentShape) (failure : ConversionFailure) (name : String) (e : Expr)
  | unknownShape (shape : String)
  | componentBindings (element name : String)

namespace Fault

/-- What is reported of a fault. Integers are written out at any length; a limit that a host may
set on their digits is left out. -/
def diagnostic : Fault → Diagnostic
  | foreignKind kind e =>
    ⟨.unsupportedOperation, "Unsupported expression kind: " ++ kind, none, none, none, some e⟩
  | invalid e =>
    ⟨.invalidExpression, "Invalid expression while evaluating", none, none, none, some e⟩
  | uncompiled e =>
    ⟨.invalidExpression, "Uncompiled expression while evaluating", none, none, none, some e⟩
  | signalAsValue name e =>
    ⟨.unsupportedOperation, "Signal used as a value", none, some name, none, some e⟩
  | fieldOf kind name e =>
    ⟨.unsupportedOperation, "Field access on a " ++ kind ++ " value", none, some name, none, some e⟩
  | notASignal e =>
    ⟨.notASignal, "Call of something not a signal", none, none, none, some e⟩
  | unknownSignal element name e =>
    ⟨.unresolvedReference, "Unknown signal", some element, some name, none, some e⟩
  | assignmentTarget kind op e =>
    ⟨.invalidAssignmentTarget, "Cannot assign to a " ++ kind ++ " expression", none, none,
      some op.sign, some e⟩
  | assignmentOperands current op operand name e =>
    ⟨.unsupportedOperation, "Unsupported " ++ current ++ " " ++ op.sign ++ "= " ++ operand, none,
      some name, some op.sign, some e⟩
  | binaryOperands left op right e =>
    ⟨.unsupportedOperation, "Unsupported " ++ left ++ " " ++ op.sign ++ " " ++ right, none, none,
      some op.sign, some e⟩
  | unaryOperand op kind e =>
    ⟨.unsupportedOperation, "Unsupported " ++ op.sign ++ " " ++ kind, none, none, some op.sign,
      some e⟩
  | conditionNotBool e =>
    ⟨.unsupportedOperation, "Conditional expression did not evaluate to a boolean", none, none,
      none, some e⟩
  | unknownElement index e =>
    ⟨.unresolvedReference, "Unknown element index " ++ toString index, none, none, none, e⟩
  | noOwner element component visited e =>
    ⟨.contextChain, "No enclosing context owns element " ++ Text.quoted element ++
      " (component " ++ Text.quoted component ++ "); searched " ++ " -> ".intercalate visited,
      some element, none, none, e⟩
  | chainTooDeep limit element e =>
    ⟨.contextChain, "Context chain deeper than " ++ toString limit ++
      " while resolving element " ++ Text.quoted element, some element, none, none, e⟩
  | notAnItem component element name e =>
    ⟨.unresolvedReference, "Element is not an item of component " ++ Text.quoted component,
      some element, some name, none, some e⟩
  | unknownProperty item element name e =>
    ⟨.unresolvedReference, "Unknown property of " ++ item, some element, some name, none, some e⟩
  | notRepeating component element name e =>
    ⟨.unimplemented, "Repeater reference to an element that does not repeat component " ++
      Text.quoted component, some element, some name, none, some e⟩
  | wrongInstance actual expected element name e =>
    ⟨.contextChain, "Context instance is a " ++ Text.quoted actual ++ ", not a " ++
      Text.quoted expected, some element, some name, none, some e⟩
  | notRepeated component element name e =>
    ⟨.unresolvedReference, "Component " ++ Text.quoted component ++ " is not repeated",
      some element, some name, none, some e⟩
  | propertyAsSignal element name =>
    ⟨.propertyType, "Slot of signal is a Property", some element, some name, none, none⟩
  | notAProperty slot held item name =>
    ⟨.propertyType, "Slot " ++ toString slot ++ " is a " ++ held ++ ", not a property", item,
      some name, none, none⟩
  | wrongItem owner name item =>
    ⟨.propertyType, "Property '" ++ name ++ "' of " ++ owner ++ " used on a " ++
      item.getD "None" ++ " item", item, some name, none, none⟩
  | rejected owner name type failure =>
    ⟨.propertyType, owner ++ "." ++ name ++ " expects " ++ type.name ++ ": " ++ failure.message,
      some owner, some name, none, none⟩
  | notStorable type name =>
    ⟨.propertyType, "Cannot store " ++ type ++ " in custom property", none, some name, none, none⟩
  | segmentField shape failure name e =>
    ⟨.propertyType, "Cannot set field of " ++ shape.structName ++ ": " ++ failure.message, none,
      some name, none, some e⟩
  | unknownShape shape =>
    ⟨.unsupportedOperation, "Cannot create unsupported path element " ++ shape, none, some shape,
      none, none⟩
  | componentBindings element name =>
    ⟨.unimplemented, "Bindings on a sub-component element are not supported", some element,
      some name, none, none⟩

end Fault

/-- Whatever can go wrong in a call. Only a `fault` is a fatal evaluation error; the others
report data or indices that the caller supplied. -/
inductive Error
  | fault (f : Fault)
  | native (e : NativeError)
  | noElement (index : Int)
  | noComponent (index : Int)
  | noSlot
  | noSlotToFill
  | tree (d : TreeDefect)
  | duplicateSignal (name : String)
  | unknownItem (element type : String)
  | duplicateElement (element component : String)
  | notRepeated (component : String) (missing : List String)
  | noKind (type : String)

namespace Error

def conversion (failure : ConversionFailure) : Error := .native (.conversion failure)

def message? : Error → Option String
  | fault f => some f.diagnostic.text
  | native (.conversion failure) => some failure.message
  | native .integerTooLarge => some "int too large to convert to float"
  | native (.notNumeric type) =>
    some ("float() argument must be a string or a real number, not '" ++ type ++ "'")
  | native (.notANumeral shown) => some ("could not convert string to float: " ++ shown)
  | native (.notADictionary type) => some ("'" ++ type ++ "' object has no attribute 'items'")
  | native (.notIterable type) => some ("'" ++ type ++ "' object is not iterable")
  | native (.notAKey type) => some ("unhashable type: '" ++ type ++ "'")
  | native .malformed => none
  | noElement index => some ("element index " ++ toString index ++ " out of range")
  | noComponent index => some ("component index " ++ toString index ++ " out of range")
  | noSlot => some "list index out of range"
  | noSlotToFill => some "list assignment index out of range"
  | tree d => some d.message
  | duplicateSignal name => some ("Duplicate custom signal " ++ Text.quoted name)
  | unknownItem element type =>
    some ("Element " ++ Text.quoted element ++ " has unknown built-in type " ++ Text.quoted type)
  | duplicateElement element component =>
    some ("Duplicate element id " ++ Text.quoted element ++ " in component " ++
      Text.quoted component)
  | notRepeated component missing =>
    some ("Component " ++ Text.quoted component ++ " is not repeated (missing " ++
      ", ".intercalate missing ++ ")")
  | noKind type => some ("'" ++ type ++ "' object has no attribute 'kind'")

end Error

end UiBinding
