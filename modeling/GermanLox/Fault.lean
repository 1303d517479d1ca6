import GermanLox.Token

/-!
# Run-time faults

What can stop a running program, and the token at which it does.
-/

namespace GermanLox

inductive FaultCause where
  | undefinedVariable
  | undefinedProperty
  | operandNotNumber
  | operandsNotNumbers
  | operandsNotAddable
  | notCallable
  | notAnInstance
  | fieldsNeedInstance
  | arityMismatch (expected actual : Nat)
  | superclassNotAClass
deriving DecidableEq

structure Fault where
  token : Token
  cause : FaultCause
deriving DecidableEq

namespace Fault

def message (fault : Fault) : String :=
  match fault.cause with
  | .undefinedVariable => "Undefinierte Variable '" ++ fault.token.lexeme ++ "'."
  | .undefinedProperty => "Undefinierte Eigenschaft '" ++ fault.token.lexeme ++ "'."
  | .operandNotNumber => "Operand von '" ++ fault.token.lexeme ++ "' muss eine Zahl sein."
  | .operandsNotNumbers => "Operanden von '" ++ fault.token.lexeme ++ "' müssen Zahlen sein."
  | .operandsNotAddable => "Operanden müssen zwei Zahlen oder zwei Zeichenketten sein."
  | .notCallable => "Nur Funktionen und Klassen können aufgerufen werden."
  | .notAnInstance => "Nur Instanzen haben Eigenschaften."
  | .fieldsNeedInstance => "Nur Instanzen haben Felder."
  | .arityMismatch expected actual =>
    expected.repr ++ " Argumente erwartet, aber " ++ actual.repr ++ " erhalten."
  | .superclassNotAClass => "Oberklasse muss eine Klasse sein."

/-- The message and the line it is about. -/
def report (fault : Fault) : String :=
  fault.message ++ "\n[Zeile " ++ fault.token.line.repr ++ "]"

end Fault
end GermanLox
