/-!
# Kinds of failure

The kinds under which a record's failure is reported, and their short codes for listings.
-/

namespace AsmLayout

/-- The kind of a failure. -/
inductive ErrorKind
  | invalidDuplicationFactor
  | invalidDataType
  | invalidSymbolKey
  | invalidLengthKey
  | invalidHexLiteral
  | notANumber
  | evaluationFailed
  deriving DecidableEq, Repr

namespace ErrorKind

def all : List ErrorKind :=
  [invalidDuplicationFactor, invalidDataType, invalidSymbolKey, invalidLengthKey,
    invalidHexLiteral, notANumber, evaluationFailed]

def name : ErrorKind → String
  | invalidDuplicationFactor => "InvalidDuplicationFactor"
  | invalidDataType => "InvalidDataType"
  | invalidSymbolKey => "InvalidSymbolKey"
  | invalidLengthKey => "InvalidLengthKey"
  | invalidHexLiteral => "InvalidHexLiteral"
  | notANumber => "NotANumber"
  | evaluationFailed => "EvaluationFailed"

/-- The code that listings show. -/
def code : ErrorKind → String
  | invalidDuplicationFactor => "LAY-E001"
  | invalidDataType => "LAY-E002"
  | invalidSymbolKey => "LAY-E003"
  | invalidLengthKey => "LAY-E004"
  | invalidHexLiteral => "LAY-E005"
  | notANumber => "LAY-E006"
  | evaluationFailed => "LAY-E007"

end ErrorKind
end AsmLayout
