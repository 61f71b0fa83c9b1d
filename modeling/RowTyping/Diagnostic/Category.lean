namespace RowTyping

inductive Category where
  | typeMismatch
  | kindMismatch
  | fieldMismatch
  | effectMismatch
  | infiniteType
  | undefinedName
  | arityMismatch
  | unsolvedConstraint
  | missingInstance
  | ambiguousType
  | overlappingInstance
  | unknownEffect
  | capabilityCapture
  | representationMismatch
  | typeError
  deriving DecidableEq, Repr, Inhabited

namespace Category

def all : List Category :=
  [.typeMismatch, .kindMismatch, .fieldMismatch, .effectMismatch, .infiniteType, .undefinedName,
    .arityMismatch, .unsolvedConstraint, .missingInstance, .ambiguousType, .overlappingInstance,
    .unknownEffect, .capabilityCapture, .representationMismatch, .typeError]

def name : Category → String
  | .typeMismatch => "type_mismatch"
  | .kindMismatch => "kind_mismatch"
  | .fieldMismatch => "field_mismatch"
  | .effectMismatch => "effect_mismatch"
  | .infiniteType => "infinite_type"
  | .undefinedName => "undefined_name"
  | .arityMismatch => "arity_mismatch"
  | .unsolvedConstraint => "unsolved_constraint"
  | .missingInstance => "missing_instance"
  | .ambiguousType => "ambiguous_type"
  | .overlappingInstance => "overlapping_instance"
  | .unknownEffect => "unknown_effect"
  | .capabilityCapture => "capability_capture"
  | .representationMismatch => "representation_mismatch"
  | .typeError => "type_error"

def code : Category → String
  | .typeMismatch => "E0001"
  | .kindMismatch => "E0002"
  | .fieldMismatch => "E0003"
  | .effectMismatch => "E0004"
  | .infiniteType => "E0005"
  | .undefinedName => "E0006"
  | .arityMismatch => "E0007"
  | .unsolvedConstraint => "E0008"
  | .missingInstance => "E0009"
  | .ambiguousType => "E0010"
  | .overlappingInstance => "E0011"
  | .unknownEffect => "E0012"
  | .capabilityCapture => "E0013"
  | .representationMismatch => "E0014"
  | .typeError => "E0015"

def description : Category → String
  | .typeMismatch => "Expression type does not match expected type."
  | .kindMismatch => "A type and a row, or two rows of different kinds, met."
  | .fieldMismatch => "Record fields are missing, extra, or mistyped."
  | .effectMismatch => "A function performs effects its context does not allow."
  | .infiniteType => "A type variable would have to contain itself."
  | .undefinedName => "A referenced variable, function, or name is undefined."
  | .arityMismatch => "A function was called with the wrong number of arguments."
  | .unsolvedConstraint => "A class constraint could not be resolved to a type."
  | .missingInstance => "No instance of the class exists for the type."
  | .ambiguousType => "A type variable could not be defaulted unambiguously."
  | .overlappingInstance => "Two instances exist for the same class and type."
  | .unknownEffect => "An effect annotation names an unknown effect."
  | .capabilityCapture => "A closure captured a linear capability implicitly."
  | .representationMismatch => "Two different record encodings were mixed in one program."
  | .typeError => "General type checking error."

def exampleFix : Category → String
  | .typeMismatch => "Adjust the expression or add a conversion to match expected type."
  | .kindMismatch => "Use a value type where a value is expected."
  | .fieldMismatch => "Add the missing field or use an open record type."
  | .effectMismatch => "Add the capability to the signature or handle the effect."
  | .infiniteType => "Break the self-reference, usually a misplaced argument."
  | .undefinedName => "Define/import the missing name or fix the spelling."
  | .arityMismatch => "Call the function with its declared parameter count."
  | .unsolvedConstraint => "Annotate the binding with a concrete type."
  | .missingInstance => "Import the prelude or define an instance."
  | .ambiguousType => "Add a type annotation to pick the numeric type."
  | .overlappingInstance => "Remove one of the duplicate instances."
  | .unknownEffect => "Use one of IO, FS, Net, Clock, Rand, DB, Trace, Async."
  | .capabilityCapture => "Pass the capability as an explicit parameter."
  | .representationMismatch => "Check every module with the same record encoding."
  | .typeError => "Follow the source path and help text to align involved types."

theorem mem_all (c : Category) : c ∈ all := by
  cases c <;> decide

def index (c : Category) : Nat :=
  all.idxOf c

end Category

end RowTyping
