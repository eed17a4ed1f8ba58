import Peano.Formula.Equal
import Peano.Resolve
namespace Peano.Judgement
open Syntax (ArithOp Jump)

/-- How a term ends: with a value, or with a statement that hands one over. -/
inductive Ending where
  | value
  | jump (j : Jump)
  deriving DecidableEq, Repr

def Ending.text : Ending → String
  | value => "value"
  | jump j => j.text

inductive Error where
  | type (e : Resolve.Error)
  | untaggable (why : Scope.Untaggable)
  | notAssignable (got required : Formula)
  | unknownVariable (name : String)
  | typeAsTerm
  | operandNotArithmetic (side : String) (op : ArithOp) (got : Formula)
  | mapWithoutArgument
  | emptyCall
  | succOfNonArithmetic (got : Formula)
  | ringOfNonEquation (got : Formula)
  | neverElimUnconstrained
  | neverElimNeedsNever
  | notAFunction (got : Formula)
  | misapplied (why : Formula.Misapplied)
  | symmWithArgument
  | symmOfNonEquation (got : Formula)
  | transOfNonEquation (got : Formula)
  | transWithoutArgument
  | transMismatch (first second : Formula)
  | transRungUnconstrained
  | transRequiresEquation (required : Formula)
  | transRungMismatch (wanted got : Formula)
  | transWithNonEquation (got : Formula)
  | mapNeedsNumberFunction
  | mapOfNonEquation
  | replaceAllOfNonEquation
  | replaceAllOfNonVariable
  | injectionUnconstrained (name : String)
  | injectionNeedsOr (name : String) (got : Formula)
  | injectionMismatch (name : String)
  | wrongEnding (wanted got : Ending)
  | missingEnding (wanted : Ending)
  | notAStruct (got : Formula)
  | fieldNotInStruct (field : String) (struct : Formula)
  | incompleteDestructuring
  | parameterConstraint
  | requiredNonFunction (required : Formula)
  | inputMismatch (required declared : Formula)
  | unconstrainedArgument
  | resultMismatch (asserted expected : Formula)
  | bodyMismatch (declared required : Formula)
  | counterNotNumber
  | counterNotZero
  | loopMismatch (declared required : Formula)
  | loopUnconstrained (proof : String)
  | baseMismatch (proof : String) (required got : Formula)
  | wrongComparison (wanted got : String)
  | wrongStep (wanted got : String)
  | stepMismatch
  | switchOfNonOr (got : Formula)
  | caseCount
  | missingCase (side : String)
  | casesDiffer
  | instanceNeedsOr (name : String)
  | unknownGeneric (name : String)
  | replaceNeedsGeneric
  | replaceOfNonGeneric (name : String)
  | replaceArity (name : String)
  | replaceConstraint (name : String)
  | unwantedStruct (required : Formula)
  | fieldsMismatch (number property wantedNumber wantedProperty : String)
  | ascriptionInStruct
  | structUnconstrained
  | proofMismatch (got required : Formula)
  | unwantedPair
  | ascriptionMismatch (required got : Formula)
  | ascriptionOfOther
  | memberOfNonPair (got : Formula)
  | unknownMember
  | memberMismatch (required returned : Formula)
  deriving Repr

namespace Error

def message : Error → String
  | type e => e.message
  | untaggable why => why.message
  | notAssignable got required =>
    "type\n" ++ got.text ++ "\nis not assignable to type\n" ++ required.text
  | unknownVariable name => "unknown variable " ++ name
  | typeAsTerm => "can't use a type in expression context"
  | operandNotArithmetic side op got =>
    side ++ " of " ++ op.text ++ " must be arithmetic, got " ++ got.text
  | mapWithoutArgument => "eq.map requires an argument"
  | emptyCall => "no-argument call only works on built-in functions"
  | succOfNonArithmetic got => "succ argument must be an arithmetic type, got " ++ got.text
  | ringOfNonEquation got => "ring argument must be a ==, got " ++ got.text
  | neverElimUnconstrained => "neverElim needs require or generic argument"
  | neverElimNeedsNever => "neverElim needs never"
  | notAFunction got => "left of call must be a function. Got a " ++ got.text
  | misapplied why => why.message
  | symmWithArgument => "symm takes no arguments"
  | symmOfNonEquation got =>
    ".symm can only be called on an equality, got " ++ Text.quote got.text
  | transOfNonEquation got =>
    ".trans can only be called on an equality, got " ++ Text.quote got.text
  | transWithoutArgument => ".trans required an argument"
  | transMismatch first second =>
    "in eq1.trans(eq2), the right side of eq1 must match the left side of eq2. Got eq1=" ++
      first.text ++ " and eq2=" ++ second.text
  | transRungUnconstrained =>
    ".trans can only be called with a rung value if there is a type expectation. Add a type annotation or \"as\", or use an equality as the argument."
  | transRequiresEquation required =>
    "required type is not an equality, eq.trans doesn't make sense here. Required: " ++ required.text
  | transRungMismatch wanted got => "wrong type, expected " ++ wanted.text ++ ", got " ++ got.text
  | transWithNonEquation got =>
    "eq.trans can only be called with another equality, got " ++ Text.quote got.text
  | mapNeedsNumberFunction => "eq.map requires a function from N to N"
  | mapOfNonEquation => "eq.map argument must be a =="
  | replaceAllOfNonEquation => "the second argument to replaceAll must be an equality"
  | replaceAllOfNonVariable => "replaceAll: left of eq must be a variable"
  | injectionUnconstrained name => name ++ " needs an assertion or a type parameter"
  | injectionNeedsOr name got => name ++ " needs a || assertion, got " ++ got.text
  | injectionMismatch name => name ++ " type mismatch"
  | wrongEnding wanted got =>
    "This block should end in a " ++ wanted.text ++ " statement, got " ++ Text.quote got.text
  | missingEnding wanted => "statement must end in a " ++ wanted.text
  | notAStruct got => "need a struct for destructuring assignment, got " ++ got.text
  | fieldNotInStruct field struct =>
    "destructuring assignment failed, " ++ Text.quote field ++ " not in struct " ++ struct.text
  | incompleteDestructuring => "destructuring assignment must get a number and a proposition"
  | parameterConstraint => "generic typedef parameter must be N or Prop"
  | requiredNonFunction required => "required non-function type " ++ required.text
  | inputMismatch required declared =>
    "required input type: " ++ required.text ++ ", declared: " ++ declared.text
  | unconstrainedArgument => "unconstrained argument type"
  | resultMismatch asserted expected =>
    "return type annotation inconsistent with expected type.\nasserted here: " ++ asserted.text ++
      "\nexpected return type: " ++ expected.text
  | bodyMismatch declared required =>
    "return type annotation breaks requirement\ndeclared in function: " ++ declared.text ++
      "\nrequired: " ++ required.text
  | counterNotNumber => "iter must be N"
  | counterNotZero => "iter must be initialized to 0"
  | loopMismatch declared required =>
    "base require mismatch. declared here: " ++ declared.text ++ " but required of the loop: " ++
      required.text
  | loopUnconstrained proof =>
    "could not constrain the proof variable type. Add a type annotation on " ++ Text.quote proof
  | baseMismatch proof required got =>
    "base type mismatch. Required type for " ++ Text.quote proof ++ " is " ++ required.text ++
      " but got " ++ got.text
  | wrongComparison wanted got =>
    "condition left side identifier must be " ++ Text.quote wanted ++ ", got " ++ Text.quote got
  | wrongStep wanted got =>
    "step variable must be the first declared (" ++ Text.quote wanted ++ "), got " ++ Text.quote got
  | stepMismatch => "step type mismatch"
  | switchOfNonOr got => "switch value must be ||, got " ++ got.text
  | caseCount => "switch must have 2 cases"
  | missingCase side => "switch must have a " ++ side ++ " case"
  | casesDiffer => "switch cases must have same type and also with require"
  | instanceNeedsOr name => name ++ " type argument must be ||"
  | unknownGeneric name => "unknown generic " ++ name
  | replaceNeedsGeneric => "replace needs a generic type argument"
  | replaceOfNonGeneric name => name ++ " is not a generic typedef"
  | replaceArity name => name ++ " must have exactly 1 argument"
  | replaceConstraint name => name ++ "'s argument must be N"
  | unwantedStruct required => "didnt want a struct, wanted " ++ required.text
  | fieldsMismatch number property wantedNumber wantedProperty =>
    "struct fields must match assertion. Received: " ++ number ++ " " ++ property ++ ", expected: " ++
      wantedNumber ++ " " ++ wantedProperty
  | ascriptionInStruct => "as inconsistent with outer assertion in estruct"
  | structUnconstrained => "unimplemented, need proof assertion in estruct"
  | proofMismatch got required => "bad as: " ++ got.text ++ " != " ++ required.text
  | unwantedPair => "didnt want a &&"
  | ascriptionMismatch required got =>
    "as inconsistent with require, required: " ++ required.text ++ ", got: " ++ got.text
  | ascriptionOfOther => "as inconsistent with left"
  | memberOfNonPair got => "Only equalities and && object have . , got " ++ got.text
  | unknownMember => ". must be left or right. For Exists types, use destructuring assignment."
  | memberMismatch required returned =>
    ". inconsistent with require: required: " ++ required.text ++ " returned: " ++ returned.text

def code : Error → Diagnostic.Code
  | type e => e.code
  | untaggable .nat => .badTypeExpression
  | untaggable _ => .typeError
  | notAssignable .. | neverElimNeedsNever | misapplied _ | transMismatch .. | transRungMismatch ..
  | injectionMismatch _ | inputMismatch .. | resultMismatch .. | bodyMismatch .. | casesDiffer
  | ascriptionInStruct | proofMismatch .. | ascriptionMismatch .. | ascriptionOfOther
  | memberMismatch .. => .notAssignable
  | unknownVariable _ => .unknownVariable
  | typeAsTerm | parameterConstraint => .badTypeExpression
  | mapWithoutArgument | emptyCall | symmWithArgument | transWithoutArgument | replaceNeedsGeneric
  | replaceOfNonGeneric _ | replaceArity _ | replaceConstraint _ => .builtinMisuse
  | neverElimUnconstrained | transRungUnconstrained | injectionUnconstrained _
  | unconstrainedArgument | loopUnconstrained _ | structUnconstrained => .unconstrained
  | wrongEnding .. => .wrongReturnKind
  | missingEnding _ => .missingReturn
  | notAStruct _ | fieldNotInStruct .. | incompleteDestructuring => .badDestructuring
  | counterNotNumber | counterNotZero | loopMismatch .. | baseMismatch .. | wrongComparison ..
  | wrongStep .. | stepMismatch => .badInduction
  | unknownGeneric _ => .unknownGeneric
  | operandNotArithmetic .. | succOfNonArithmetic _ | ringOfNonEquation _ | notAFunction _
  | symmOfNonEquation _ | transOfNonEquation _ | transRequiresEquation _ | transWithNonEquation _
  | mapNeedsNumberFunction | mapOfNonEquation | replaceAllOfNonEquation | replaceAllOfNonVariable
  | injectionNeedsOr .. | requiredNonFunction _ | switchOfNonOr _ | caseCount | missingCase _
  | instanceNeedsOr _ | unwantedStruct _ | fieldsMismatch .. | unwantedPair | memberOfNonPair _
  | unknownMember => .shapeMismatch

end Error
end Peano.Judgement
