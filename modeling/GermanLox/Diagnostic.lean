import GermanLox.Source.Scan

/-!
# Diagnostics

What can be wrong with a program before it runs: its characters, its grammar or its names. Each
fault is a cause; `Diagnostic.message` words it.
-/

namespace GermanLox

def LexicalFault.message : LexicalFault → String
  | unexpectedCharacter => "Unerwartetes Zeichen."
  | unterminatedString => "Unbeendete Zeichenkette."

/-- What a parameter list and a body belong to. -/
inductive Routine where
  | function
  | method
deriving DecidableEq

def Routine.title : Routine → String
  | function => "Funktion"
  | method => "Methode"

/-- Why tokens form no program. -/
inductive SyntaxFault where
  | expressionExpected
  | classNameExpected
  | superclassNameExpected
  | classBodyExpected
  | classEndExpected
  | routineNameExpected (routine : Routine)
  | parametersExpected (routine : Routine)
  | parameterNameExpected
  | tooManyParameters
  | parametersEndExpected
  | routineBodyExpected (routine : Routine)
  | variableNameExpected
  | declarationEndExpected
  | forClausesExpected
  | forConditionEndExpected
  | forClausesEndExpected
  | ifConditionExpected
  | ifConditionEndExpected
  | whileConditionExpected
  | whileConditionEndExpected
  | printEndExpected
  | returnEndExpected
  | expressionEndExpected
  | blockEndExpected
  | invalidAssignmentTarget
  | propertyNameExpected
  | tooManyArguments
  | argumentsEndExpected
  | superDotExpected
  | superMethodExpected
  | groupingEndExpected
deriving DecidableEq

def SyntaxFault.message : SyntaxFault → String
  | expressionExpected => "Ausdruck erwartet."
  | classNameExpected => "Klassenname erwartet."
  | superclassNameExpected => "Name der Oberklasse erwartet."
  | classBodyExpected => "'\x7b' vor Klassenkörper erwartet."
  | classEndExpected => "'\x7d' nach Klassenkörper erwartet."
  | routineNameExpected routine => routine.title ++ "sname erwartet."
  | parametersExpected routine => "'(' nach " ++ routine.title ++ "sname erwartet."
  | parameterNameExpected => "Parametername erwartet."
  | tooManyParameters => "Kann nicht mehr als 255 Parameter haben."
  | parametersEndExpected => "')' nach Parametern erwartet."
  | routineBodyExpected routine => "'\x7b' vor " ++ routine.title ++ "skörper erwartet."
  | variableNameExpected => "Variablenname erwartet."
  | declarationEndExpected => "';' nach Variablendeklaration erwartet."
  | forClausesExpected => "'(' nach 'für' erwartet."
  | forConditionEndExpected => "';' nach Schleifenbedingung erwartet."
  | forClausesEndExpected => "')' nach für-Klauseln erwartet."
  | ifConditionExpected => "'(' nach 'wenn' erwartet."
  | ifConditionEndExpected => "')' nach wenn-Bedingung erwartet."
  | whileConditionExpected => "'(' nach 'während' erwartet."
  | whileConditionEndExpected => "')' nach Bedingung erwartet."
  | printEndExpected => "';' nach Wert erwartet."
  | returnEndExpected => "';' nach Rückgabewert erwartet."
  | expressionEndExpected => "';' nach Ausdruck erwartet."
  | blockEndExpected => "'\x7d' nach Block erwartet."
  | invalidAssignmentTarget => "Ungültiges Zuweisungsziel."
  | propertyNameExpected => "Eigenschaftsname nach '.' erwartet."
  | tooManyArguments => "Kann nicht mehr als 255 Argumente haben."
  | argumentsEndExpected => "')' nach Argumenten erwartet."
  | superDotExpected => "'.' nach 'super' erwartet."
  | superMethodExpected => "Name der Oberklassenmethode erwartet."
  | groupingEndExpected => "')' nach Ausdruck erwartet."

/-- Why a name, or a word that needs a surrounding, cannot stand where it does. -/
inductive ScopeFault where
  | alreadyDeclared
  | readInOwnInitializer
  | returnAtTopLevel
  | returnValueFromInitializer
  | thisOutsideClass
  | superOutsideClass
  | superWithoutSuperclass
  | inheritsFromItself
deriving DecidableEq

def ScopeFault.message : ScopeFault → String
  | alreadyDeclared => "Bereits eine Variable mit diesem Namen in diesem Gültigkeitsbereich."
  | readInOwnInitializer => "Kann lokale Variable in ihrer eigenen Initialisierung nicht lesen."
  | returnAtTopLevel => "Kann nicht von Code auf oberster Ebene zurückgeben."
  | returnValueFromInitializer => "Kann keinen Wert von einem Initialisierer zurückgeben."
  | thisOutsideClass => "Kann 'dies' nicht außerhalb einer Klasse verwenden."
  | superOutsideClass => "Kann 'super' nicht außerhalb einer Klasse verwenden."
  | superWithoutSuperclass => "Kann 'super' nicht in einer Klasse ohne Oberklasse verwenden."
  | inheritsFromItself => "Eine Klasse kann nicht von sich selbst erben."

inductive Diagnostic where
  | lexical (line : Nat) (cause : LexicalFault)
  | syntactic (line : Nat) (cause : SyntaxFault)
  | scoping (token : Token) (cause : ScopeFault)
deriving DecidableEq

namespace Diagnostic

def line : Diagnostic → Nat
  | lexical line _ => line
  | syntactic line _ => line
  | scoping token _ => token.line

/-- The line, the offending lexeme where a name is at fault, and the cause. -/
def message : Diagnostic → String
  | lexical line cause => "[Zeile " ++ line.repr ++ "] Fehler: " ++ cause.message
  | syntactic line cause => "[Zeile " ++ line.repr ++ "] Fehler: " ++ cause.message
  | scoping token cause =>
    "[Zeile " ++ token.line.repr ++ "] Fehler bei '" ++ token.lexeme ++ "': " ++ cause.message

end Diagnostic

/-- The diagnostic of an item that is a fault. -/
def Item.diagnostic? : Item → Option Diagnostic
  | token _ => none
  | fault line cause => some (.lexical line cause)

end GermanLox
