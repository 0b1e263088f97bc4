import Scriptlet.Fault
import Scriptlet.Ty

/-!
# Errors

Everything that stops the reading, simplifying or running of a program. An
error is a cause together with the place in the source, a number of bytes from
its start, at which it was found (`Error.offset?`); `Error.message` words it.
-/

namespace Scriptlet

open Text

/-- What is wrong with a string template. -/
inductive TemplateFlaw
  | strayBrace
  | unclosedHole
  | unterminatedLiteral
  | emptyHole
  | alignment
  | notATemplate
  deriving DecidableEq, Repr

/-- The wording of a flaw. -/
def TemplateFlaw.message : TemplateFlaw → String
  | strayBrace => "unescaped '\x7d'"
  | unclosedHole => "unclosed '\x7b'"
  | unterminatedLiteral => "unterminated literal"
  | emptyHole => "empty expression"
  | alignment => "alignment must be an integer"
  | notATemplate => "not an interpolated string"

/-- A construct that stands where it means nothing. -/
inductive Misuse
  | readOnlyTarget
  | assignmentTarget
  | incrementTarget
  | untypedLambda
  | arrayInitializerRank
  | untypedArray
  | untypedVariable (value : Ty)
  | handlerMissing
  | returnOutside
  | returnValueMissing
  | breakOutside
  | continueOutside
  | declarationOutside
  | receiverNotParameter (name : String)
  /-- A refusal that the host words itself. -/
  | host (message : String)
  deriving DecidableEq, Repr

/-- The wording of a misuse. -/
def Misuse.message : Misuse → String
  | readOnlyTarget => "Property or indexer cannot be assigned to -- it is read only"
  | assignmentTarget =>
    "The left-hand side of an assignment must be a variable, property or indexer"
  | incrementTarget =>
    "The operand of an increment or decrement operator must be a variable, field or indexer"
  | untypedLambda =>
    "Cannot infer the parameter types of a lambda without a target delegate type"
  | arrayInitializerRank => "Only single-dimension array initializers are supported"
  | untypedArray => "No best type found for implicitly-typed array"
  | untypedVariable value =>
    "Cannot assign '" ++ value.text ++ "' to an implicitly-typed variable"
  | handlerMissing => "Expected catch or finally"
  | returnOutside => "return outside of a lambda body"
  | returnValueMissing => "A return value is required here"
  | breakOutside => "No enclosing loop or switch out of which to break"
  | continueOutside => "No enclosing loop out of which to continue"
  | declarationOutside => "Declaration outside of any scope"
  | receiverNotParameter name => "Default receiver '" ++ name ++ "' is not a parameter"
  | host message => message

/-- An operation or a conversion that its types do not allow. -/
inductive Mismatch
  | integerTooLarge (literal : String)
  | realWithIntegralSuffix
  | charLiteral
  | operands (symbol : String) (left right : Ty)
  | operand (symbol : String) (type : Ty)
  | cast (source target : Ty)
  | implicitConversion (source target : Ty)
  | noCommonType (left right : Ty)
  | asValueType (target : Ty)
  | indexCount (rank : Nat)
  | notIndexable (type : Ty)
  | notInvocable (type : Ty)
  | noConstructors (type : Ty)
  | noSize (type : Ty)
  | arrayElements (left right : Ty)
  | caughtType (type : Ty)
  | thrownType (type : Ty)
  | lambdaFor (given : Nat) (target : Ty) (wanted : Nat)
  | lambdaTarget (target : Ty)
  | lambdaParameters (given wanted : Nat)
  deriving DecidableEq, Repr

/-- The wording of a mismatch. -/
def Mismatch.message : Mismatch → String
  | integerTooLarge literal => "Integral constant '" ++ literal ++ "' is too large"
  | realWithIntegralSuffix => "Integral suffix applied to a real literal"
  | charLiteral => "Character literal must contain exactly one character"
  | operands symbol left right =>
    "Operator '" ++ symbol ++ "' cannot be applied to operands of type '" ++ left.text ++
      "' and '" ++ right.text ++ "'"
  | operand symbol type =>
    "Operator '" ++ symbol ++ "' cannot be applied to operand of type '" ++ type.text ++ "'"
  | cast source target =>
    "Cannot convert type '" ++ source.text ++ "' to '" ++ target.text ++ "'"
  | implicitConversion source target =>
    "Cannot implicitly convert type '" ++ source.text ++ "' to '" ++ target.text ++ "'"
  | noCommonType left right =>
    "No implicit conversion between '" ++ left.text ++ "' and '" ++ right.text ++ "'"
  | asValueType target =>
    "The as operator must be used with a reference or nullable type ('" ++ target.text ++
      "' is a value type)"
  | indexCount rank => "Wrong number of indices inside []; expected " ++ showNat rank
  | notIndexable type =>
    "Cannot apply indexing with [] to an expression of type '" ++ type.text ++ "'"
  | notInvocable type => "Expression of type '" ++ type.text ++ "' cannot be invoked"
  | noConstructors type => "Type '" ++ type.text ++ "' has no constructors"
  | noSize type => "'" ++ type.text ++ "' does not have a predefined size"
  | arrayElements left right =>
    "No best type for array elements '" ++ left.text ++ "' and '" ++ right.text ++ "'"
  | caughtType type =>
    "The type caught must derive from Exception ('" ++ type.text ++ "' does not)"
  | thrownType type =>
    "The type thrown must derive from Exception ('" ++ type.text ++ "' does not)"
  | lambdaFor given target wanted =>
    "Lambda has " ++ showNat given ++ " parameters but '" ++ target.text ++ "' takes " ++
      showNat wanted
  | lambdaTarget target => "Cannot convert lambda to '" ++ target.text ++ "'"
  | lambdaParameters given wanted =>
    "Lambda has " ++ showNat given ++ " parameters but " ++ showNat wanted ++ " were expected"

/-- The causes for which a program is refused or stops. -/
inductive Error
  | unknownSymbol (offset : Nat) (near : String)
  | unterminatedLiteral (offset : Nat)
  | unknownEscape (offset : Nat) (sequence : String)
  | malformedTemplate (offset : Nat) (flaw : TemplateFlaw)
  | wrongSymbol (offset : Nat) (expected found : String)
  | missingClosing (offset : Nat) (expected : String)
  | duplicateVariable (offset : Nat) (name : String)
  | notEnumerable (offset : Nat) (type : Ty)
  | misuse (offset : Nat) (what : Misuse)
  | typeNotFound (offset : Nat) (name : String)
  | memberNotFound (offset : Nat) (type : Ty) (member : String)
  | noOverload (offset : Nat) (name arguments : String)
  | inference (offset : Nat) (method parameter : String)
  | mismatch (offset : Nat) (what : Mismatch)
  /-- A division whose divisor is a constant zero, found while simplifying. -/
  | constantDivision
  | fault (cause : Fault)
  /-- An exception of the program that nothing caught. -/
  | thrown (message : String)
  /-- A configuration text that is not what it should be. -/
  | configuration
  deriving DecidableEq, Repr

namespace Error

/-- The wording of an error. -/
def message : Error → String
  | unknownSymbol offset near => located offset ("Unknown symbol near: " ++ near)
  | unterminatedLiteral offset => located offset "Unterminated literal"
  | unknownEscape offset sequence =>
    located offset ("Unknown escape sequence '" ++ sequence ++ "'")
  | malformedTemplate offset flaw =>
    located offset ("Malformed interpolated string: " ++ flaw.message)
  | wrongSymbol offset expected found =>
    located offset ("Expected '" ++ expected ++ "', found '" ++ found ++ "'")
  | missingClosing offset expected => located offset ("Missing closing '" ++ expected ++ "'")
  | duplicateVariable offset name =>
    located offset ("Variable '" ++ name ++ "' is already declared in this scope")
  | notEnumerable offset type =>
    located offset ("Type '" ++ type.text ++ "' has neither an array nor an enumerator shape")
  | misuse offset what => located offset what.message
  | typeNotFound offset name => located offset ("Type '" ++ name ++ "' not found")
  | memberNotFound offset type member =>
    located offset ("Member '" ++ member ++ "' not found on type '" ++ type.text ++ "'")
  | noOverload offset name arguments =>
    located offset ("No overload of '" ++ name ++ "' accepts arguments (" ++ arguments ++ ")")
  | inference offset method parameter =>
    located offset ("Cannot infer type parameter '" ++ parameter ++ "' of '" ++ method ++ "'")
  | mismatch offset what => located offset what.message
  | constantDivision => "Division by constant zero"
  | fault cause => "Runtime error: " ++ cause.message
  | thrown message => "Unhandled exception: " ++ message
  | configuration => "Invalid configuration"
where
  /-- A wording with the place in front. -/
  located (offset : Nat) (text : String) : String := "[position " ++ showNat offset ++ "] " ++ text

/-- The place of an error in the source, if it has one. -/
def offset? : Error → Option Nat
  | unknownSymbol offset _ | unterminatedLiteral offset | unknownEscape offset _
  | malformedTemplate offset _ | wrongSymbol offset .. | missingClosing offset _
  | duplicateVariable offset _ | notEnumerable offset _ | misuse offset _
  | typeNotFound offset _ | memberNotFound offset .. | noOverload offset ..
  | inference offset .. | mismatch offset _ => some offset
  | constantDivision | fault _ | thrown _ | configuration => none

end Error

end Scriptlet
