import GermanLox.Fault
import GermanLox.Scope.Distances
import GermanLox.Store

/-!
# The machine

What a running program acts on, and its single actions. The outside world is a `Host`: what the
clock answers, and whether the output takes a line. An action ends with a value, with a fault or,
since programs need not end, for want of fuel.
-/

namespace GermanLox

/-- The world around a program, by the number of requests made before. -/
structure Host where
  /-- What the clock answers, in seconds. -/
  clock : Nat → Float
  /-- Whether the output takes a line. -/
  accepts : Nat → Bool

structure Machine where
  store : Store
  /-- The innermost frame of the running code. -/
  current : FrameId
  distances : Distances
  nextIdentity : Nat
  /-- How often the clock has been read. -/
  readings : Nat
  /-- How many lines have been written, taken or not. -/
  writes : Nat
  /-- What the output has taken. -/
  output : String

namespace Machine

/-- Before any program: the built-in functions are all there is. -/
def initial : Machine where
  store := ({} : Store).newFrame none |>.2.define Store.globals Builtin.clock.name
    (.builtin .clock)
  current := Store.globals
  distances := {}
  nextIdentity := 0
  readings := 0
  writes := 0
  output := ""

end Machine

/-- Why a computation stops before its end. -/
inductive Stop where
  | fault (f : Fault)
  | outOfFuel
deriving DecidableEq

abbrev Eval := EStateM Stop Machine

namespace Eval

variable {α : Type}

def fail (token : Token) (cause : FaultCause) : Eval α := fun m =>
  .error (.fault ⟨token, cause⟩) m

def outOfFuel : Eval α := fun m =>
  .error .outOfFuel m

/-- The value, or a fault where there is none. -/
def orFail (token : Token) (cause : FaultCause) : Option α → Eval α
  | some a => pure a
  | none => fail token cause

def freshIdentity : Eval Nat := fun m =>
  .ok m.nextIdentity { m with nextIdentity := m.nextIdentity + 1 }

/-- Answers from the store. -/
def inspect (f : Store → α) : Eval α := fun m =>
  .ok (f m.store) m

def change (f : Store → Store) : Eval Unit := fun m =>
  .ok () { m with store := f m.store }

def currentFrame : Eval FrameId := fun m =>
  .ok m.current m

def newFrame (enclosing : FrameId) : Eval FrameId := fun m =>
  let (frame, store) := m.store.newFrame (some enclosing)
  .ok frame { m with store }

def newInstance (c : Class) : Eval InstanceId := fun m =>
  let (i, store) := m.store.newInstance c
  .ok i { m with store }

def define (frame : FrameId) (name : String) (value : Value) : Eval Unit :=
  change (Store.define frame name value)

def defineAll (frame : FrameId) : List (String × Value) → Eval Unit
  | [] => return ()
  | (name, value) :: rest => do
    define frame name value
    defineAll frame rest

/-- Runs with another innermost frame and comes back to the present one, however the run ends. -/
def within (frame : FrameId) (action : Eval α) : Eval α := fun m =>
  let outer := m.current
  match action { m with current := frame } with
  | .ok a after => .ok a { after with current := outer }
  | .error stop after => .error stop { after with current := outer }

/-- Writes a line. A line that the output does not take is lost; the program does not notice. -/
def print (host : Host) (value : Value) : Eval Unit := fun m =>
  let output :=
    if host.accepts m.writes then m.output ++ m.store.display value ++ "\n" else m.output
  .ok () { m with output, writes := m.writes + 1 }

def readClock (host : Host) : Eval Value := fun m =>
  .ok (.number (host.clock m.readings)) { m with readings := m.readings + 1 }

/-- The distance of a local occurrence. -/
def distance? (id : ExprId) : Eval (Option Nat) := fun m =>
  .ok m.distances[id]? m

/-- Adds the distances of a further program. -/
def learn (distances : Distances) : Eval Unit := fun m =>
  .ok () { m with distances := m.distances ∪ distances }

/-- A variable of the running code, a number of links outward. -/
def getAt? (distance : Nat) (name : String) : Eval (Option Value) := fun m =>
  .ok (m.store.getAt? m.current distance name) m

/-- Sets the variable that a name stands for from a frame on. -/
def assignFrom (frame : FrameId) (name : Token) (value : Value) : Eval Unit := do
  let target ← inspect (·.frameOf? frame name.lexeme)
  define (← orFail name .undefinedVariable target) name.lexeme value

/-- Sets a variable of the running code, a number of links outward. -/
def assignAt (distance : Nat) (name : Token) (value : Value) : Eval Unit := do
  let frame ← currentFrame
  let target ← inspect (·.ancestor? frame distance)
  define (← orFail name .undefinedVariable target) name.lexeme value

/-- The value of a name: local occurrences by distance, all others among the globals. -/
def lookUp (id : ExprId) (name : Token) : Eval Value := do
  match ← distance? id with
  | some distance => orFail name .undefinedVariable (← getAt? distance name.lexeme)
  | none => orFail name .undefinedVariable (← inspect (·.get? Store.globals name.lexeme))

/-- Sets what a name stands for: local occurrences by distance, all others among the globals. -/
def assign (id : ExprId) (name : Token) (value : Value) : Eval Unit := do
  match ← distance? id with
  | some distance => assignAt distance name value
  | none => assignFrom Store.globals name value

/-- A function value for a declaration in a frame. -/
def close (decl : FunctionDecl) (frame : FrameId) (isInitializer : Bool) : Eval Closure := do
  return ⟨← freshIdentity, decl, frame, isInitializer⟩

/-- A method with its receiver: a new function inside a frame that names the receiver. -/
def bind (method : Closure) (receiver : InstanceId) : Eval Closure := do
  let frame ← newFrame method.frame
  define frame thisName (.ofInstance receiver)
  close method.decl frame method.isInitializer

/-- A property of an instance: a field, or else a method bound to the instance. -/
def property (i : InstanceId) (name : Token) : Eval Value := do
  match ← inspect (·.field? i name.lexeme) with
  | some value => return value
  | none =>
    match ← inspect (·.method? i name.lexeme) with
    | some method => return .closure (← bind method i)
    | none => fail name .undefinedProperty

/-- The class that the running method's class extends, and the receiver. The frame that names the
receiver is the next one inside the frame that names the superclass. -/
def superAndReceiver (id : ExprId) (keyword : Token) : Eval (Class × InstanceId) := do
  match ← distance? id with
  | none => fail keyword .undefinedVariable
  | some distance =>
    match ← getAt? distance superName with
    | some (.ofClass parent) =>
      match distance with
      | 0 => fail keyword .undefinedVariable
      | inner + 1 =>
        match ← getAt? inner thisName with
        | some (.ofInstance receiver) => return (parent, receiver)
        | _ => fail keyword .undefinedVariable
    | _ => fail keyword .undefinedVariable

/-- A method of the superclass, bound to the receiver. -/
def superMethod (id : ExprId) (keyword method : Token) : Eval Value := do
  let (parent, receiver) ← superAndReceiver id keyword
  match parent.findMethod? method.lexeme with
  | some found => return .closure (← bind found receiver)
  | none => fail method .undefinedProperty

end Eval
end GermanLox
