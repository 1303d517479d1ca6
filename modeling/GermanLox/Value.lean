import GermanLox.Stmt
import GermanLox.Text.Quoted
import Std.Data.TreeMap

/-!
# Values

What expressions evaluate to. Functions and classes are values with an identity of their own;
instances and the frames of variables live in a store and are known by their place in it.
-/

namespace GermanLox

/-- The place of a frame in the store. -/
abbrev FrameId := Nat

/-- The place of an instance in the store. -/
abbrev InstanceId := Nat

/-- A declared function with the frame it was declared in. -/
structure Closure where
  identity : Nat
  decl : FunctionDecl
  frame : FrameId
  isInitializer : Bool

namespace Closure

def name (c : Closure) : String :=
  c.decl.name.lexeme

def arity (c : Closure) : Nat :=
  c.decl.arity

/-- Name, arity and role of a function. -/
def describe (c : Closure) : String :=
  "Function \x7b name: " ++ Quoted.text c.name ++ ", arity: " ++ c.arity.repr ++
    ", is_initializer: " ++ (if c.isInitializer then "true" else "false") ++ " \x7d"

end Closure

/-- A class apart from what it inherits. -/
structure ClassDefinition where
  identity : Nat
  name : String
  methods : Std.TreeMap String Closure

/-- A class with all it inherits from, the nearest first. -/
structure Class where
  own : ClassDefinition
  ancestors : List ClassDefinition

namespace Class

def name (c : Class) : String :=
  c.own.name

/-- The class itself and all it inherits from. -/
def lineage (c : Class) : List ClassDefinition :=
  c.own :: c.ancestors

/-- The lineage that a class hands on, empty for no class. -/
def lineageOf : Option Class → List ClassDefinition
  | none => []
  | some c => c.lineage

/-- The method of a name in the nearest class that has one. -/
def findMethod? (c : Class) (name : String) : Option Closure :=
  c.lineage.findSome? (·.methods[name]?)

def initializer? (c : Class) : Option Closure :=
  c.findMethod? initializerName

/-- A class takes the arguments of its initializer. -/
def arity (c : Class) : Nat :=
  match c.initializer? with
  | none => 0
  | some init => init.arity

end Class

/-- The functions that are there from the start. -/
inductive Builtin where
  | clock
deriving DecidableEq

namespace Builtin

def name : Builtin → String
  | clock => "clock"

def arity : Builtin → Nat
  | clock => 0

def describe (b : Builtin) : String :=
  "<native fn " ++ b.name ++ ">"

end Builtin

inductive Value where
  | nil
  | bool (b : Bool)
  | number (x : Float)
  | string (s : String)
  | closure (c : Closure)
  | builtin (b : Builtin)
  | ofClass (c : Class)
  | ofInstance (i : InstanceId)

/-- What can be called. -/
inductive Callable where
  | closure (c : Closure)
  | builtin (b : Builtin)
  | ofClass (c : Class)

def Callable.arity : Callable → Nat
  | closure c => c.arity
  | builtin b => b.arity
  | ofClass c => c.arity

namespace Value

def ofLiteral : Literal → Value
  | .nil => nil
  | .bool b => bool b
  | .number x => number x
  | .string s => string s

/-- Only `nichts` and `falsch` count as false. -/
def isTruthy : Value → Bool
  | nil => false
  | bool b => b
  | _ => true

/-- Plain values are equal by content, numbers as numbers; functions, classes and instances only
to themselves. -/
def equals : Value → Value → Bool
  | nil, nil => true
  | bool a, bool b => a == b
  | number x, number y => x == y
  | string s, string t => s == t
  | closure c, closure d => c.identity == d.identity
  | builtin a, builtin b => a = b
  | ofClass c, ofClass d => c.own.identity == d.own.identity
  | ofInstance i, ofInstance j => i == j
  | _, _ => false

def callable? : Value → Option Callable
  | closure c => some (.closure c)
  | builtin b => some (.builtin b)
  | ofClass c => some (.ofClass c)
  | _ => none

def typeName : Value → String
  | nil => "nil"
  | bool _ => "boolean"
  | number _ => "number"
  | string _ => "string"
  | closure _ => "function"
  | builtin _ => "function"
  | ofClass _ => "class"
  | ofInstance _ => "instance"

end Value
end GermanLox
