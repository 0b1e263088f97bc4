import Scriptlet.Number.Arith
import Scriptlet.Text.Cut

/-!
# Faults

What can go wrong while a program runs. A fault is a cause; its wording is
`Fault.message`, which is also what a handler of the program finds as the
message of the exception that it catches.
-/

namespace Scriptlet

open Text

/-- The causes for which evaluation stops. -/
inductive Fault
  | arith (cause : ArithFault)
  | overflow
  | arrayRank (rank given : Nat)
  | arrayBounds
  | indexNotIntegral
  | indexRange
  | listBounds
  | stringRange
  | enumerationPosition
  | delegateArity (name : String) (arity given : Nat)
  | lambdaArity (arity given : Nat)
  /-- A value of another type than the one that is needed. -/
  | expected (wanted found : String)
  | notEnumerable (found : String)
  | nullValue
  | nullReference
  | noValue
  | charCode (code : Int)
  | undefinedVariable (name : String)
  | escapedJump (label : Nat)
  | nothingToRethrow
  | lengthOfOther
  | complementOperand
  | unaryOperator
  | binaryOperator
  | boolOperator
  | readOnlyMember (name : String)
  | assignmentTarget
  | missingArgument (index : Nat)
  | notBoolean (text : String)
  | notNumber (text : String)
  | numberRange (kind : NumericKind)
  | formatText
  | notANumber
  | noMatch
  | noElements
  | negativeCount
  /-- A failure that an operation of the host reports in its own words. -/
  | host (message : String)
  deriving DecidableEq, Repr

/-- The wording of a fault. -/
def Fault.message : Fault → String
  | arith cause => cause.message
  | overflow => "Arithmetic operation resulted in an overflow."
  | arrayRank rank given =>
    "Array of rank " ++ showNat rank ++ " indexed with " ++ showNat given ++ " indices"
  | arrayBounds => "Index was outside the bounds of the array."
  | indexNotIntegral => "Index must be an integral value"
  | indexRange => "Index was out of range."
  | listBounds => "Index must be within the bounds of the List."
  | stringRange => "Index and length must refer to a location within the string."
  | enumerationPosition => "Enumeration has not started or already finished."
  | delegateArity name arity given =>
    "Delegate '" ++ name ++ "' expects " ++ showNat arity ++ " arguments, got " ++ showNat given
  | lambdaArity arity given =>
    "Lambda expects " ++ showNat arity ++ " arguments, got " ++ showNat given
  | expected wanted found => "Expected " ++ wanted ++ ", found " ++ found
  | notEnumerable found => found ++ " is not enumerable"
  | nullValue => "Value cannot be null."
  | nullReference => "Object reference not set to an instance of an object."
  | noValue => "Nullable object must have a value."
  | charCode code => "Invalid char code " ++ showInt code
  | undefinedVariable name => "Undefined variable '" ++ name ++ "'"
  | escapedJump label => "Jump to label " ++ showNat label ++ " escaped the lambda body"
  | nothingToRethrow => "No exception to rethrow."
  | lengthOfOther => "Length of a non-array value"
  | complementOperand => "Operator '~' requires an integral operand"
  | unaryOperator => "Unsupported unary operator"
  | binaryOperator => "Unsupported binary operator"
  | boolOperator => "Operator cannot be applied to bool operands"
  | readOnlyMember name => "Member '" ++ name ++ "' cannot be assigned to"
  | assignmentTarget => "Invalid assignment target"
  | missingArgument index => "Missing argument " ++ showNat index
  | notBoolean text => "String '" ++ text ++ "' was not recognized as a valid Boolean."
  | notNumber text => "Input string '" ++ text ++ "' was not in a correct format."
  | numberRange kind =>
    "Value was either too large or too small for " ++ kind.systemName ++ "."
  | formatText => "Input string was not in a correct format."
  | notANumber => "Function does not accept floating point NaN values."
  | noMatch => "Sequence contains no matching element"
  | noElements => "Sequence contains no elements"
  | negativeCount => "Count must be non-negative."
  | host message => message

/-- The exception that a handler catches for a fault. A division by zero is told
    by the wording of the fault. -/
def Fault.exceptionName (f : Fault) : String :=
  if (find? "divide by zero".toList f.message.toList).isSome then "DivideByZeroException"
  else "Exception"

end Scriptlet
