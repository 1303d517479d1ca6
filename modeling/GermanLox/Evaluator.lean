import GermanLox.Machine

/-!
# Evaluation

Expressions evaluate to values and statements run to a completion. Fuel bounds the depth of the
computation: a program that ends does so with some fuel and with any more.
-/

namespace GermanLox

/-- How a statement ends. -/
inductive Completion where
  | normal
  | returned (value : Value)

def UnaryOp.apply (op : UnaryOp) (token : Token) (operand : Value) : Eval Value :=
  match op with
  | .not => return .bool (!operand.isTruthy)
  | .negate =>
    match operand with
    | .number x => return .number (-x)
    | _ => Eval.fail token .operandNotNumber

/-- An operation on two numbers. -/
def arithmetic (f : Float → Float → Value) (token : Token) : Value → Value → Eval Value
  | .number x, .number y => return f x y
  | _, _ => Eval.fail token .operandsNotNumbers

/-- A sum of two numbers, or one text after another. -/
def addition (token : Token) : Value → Value → Eval Value
  | .number x, .number y => return .number (x + y)
  | .string s, .string t => return .string (s ++ t)
  | _, _ => Eval.fail token .operandsNotAddable

def BinaryOp.apply (op : BinaryOp) (token : Token) (left right : Value) : Eval Value :=
  match op with
  | .equal => return .bool (left.equals right)
  | .notEqual => return .bool (!left.equals right)
  | .greater => arithmetic (fun x y => .bool (x > y)) token left right
  | .greaterEqual => arithmetic (fun x y => .bool (x ≥ y)) token left right
  | .less => arithmetic (fun x y => .bool (x < y)) token left right
  | .lessEqual => arithmetic (fun x y => .bool (x ≤ y)) token left right
  | .add => addition token left right
  | .subtract => arithmetic (fun x y => .number (x - y)) token left right
  | .multiply => arithmetic (fun x y => .number (x * y)) token left right
  | .divide => arithmetic (fun x y => .number (x / y)) token left right

/-- Whether the left operand alone settles the result. -/
def LogicalOp.isSettledBy (op : LogicalOp) (left : Value) : Bool :=
  match op with
  | .or => left.isTruthy
  | .and => !left.isTruthy

/-- The token to blame for a superclass that is no class: its name, or else the class's own. -/
def superclassToken (name : Token) : Expr → Token
  | .var _ parent => parent
  | _ => name

/-- The frame that methods are declared in: the class's own, or a new one inside it that names the
superclass. -/
def methodFrame (parent : Option Class) : Eval FrameId := do
  let frame ← Eval.currentFrame
  match parent with
  | none => return frame
  | some c =>
    let inner ← Eval.newFrame frame
    Eval.define inner superName (.ofClass c)
    return inner

/-- The methods of a class; of two with one name the later counts. -/
def closeMethods (frame : FrameId) (methods : Std.TreeMap String Closure) :
    List FunctionDecl → Eval (Std.TreeMap String Closure)
  | [] => return methods
  | decl :: decls => do
    let method ← Eval.close decl frame (decl.name.lexeme = initializerName)
    closeMethods frame (methods.insert decl.name.lexeme method) decls

/-- Creates a class and gives its name to it. The name exists before the methods are closed. -/
def declareClass (name : Token) (parent : Option Class) (methods : List FunctionDecl) :
    Eval Unit := do
  let frame ← Eval.currentFrame
  Eval.define frame name.lexeme .nil
  let inner ← methodFrame parent
  let methods ← closeMethods inner {} methods
  let identity ← Eval.freshIdentity
  Eval.assignFrom frame name (.ofClass ⟨⟨identity, name.lexeme, methods⟩, Class.lineageOf parent⟩)

/-- What a call of a function gives after its body has ended. An initializer always gives its
receiver. -/
def callResult (c : Closure) : Completion → Eval Value
  | completion => do
    if c.isInitializer then
      return (← Eval.inspect (·.getAt? c.frame 0 thisName)).getD .nil
    else
      match completion with
      | .returned value => return value
      | .normal => return .nil

mutual

def evaluate (host : Host) : Nat → Expr → Eval Value
  | 0, _ => Eval.outOfFuel
  | fuel + 1, e =>
    match e with
    | .literal _ value => return .ofLiteral value
    | .grouping _ inner => evaluate host fuel inner
    | .unary _ op token operand => do
      let value ← evaluate host fuel operand
      op.apply token value
    | .binary _ op token left right => do
      let l ← evaluate host fuel left
      let r ← evaluate host fuel right
      op.apply token l r
    | .logical _ op _ left right => do
      let l ← evaluate host fuel left
      if op.isSettledBy l then return l else evaluate host fuel right
    | .var id name => Eval.lookUp id name
    | .assign id name value => do
      let v ← evaluate host fuel value
      Eval.assign id name v
      return v
    | .call _ callee paren arguments => do
      let f ← evaluate host fuel callee
      let args ← evaluateAll host fuel arguments
      match f.callable? with
      | none => Eval.fail paren .notCallable
      | some target =>
        if args.length = target.arity then call host fuel target args
        else Eval.fail paren (.arityMismatch target.arity args.length)
    | .get _ object name => do
      match ← evaluate host fuel object with
      | .ofInstance i => Eval.property i name
      | _ => Eval.fail name .notAnInstance
    | .set _ object name value => do
      match ← evaluate host fuel object with
      | .ofInstance i =>
        let v ← evaluate host fuel value
        Eval.change (Store.setField i name.lexeme v)
        return v
      | _ => Eval.fail name .fieldsNeedInstance
    | .this id keyword => Eval.lookUp id keyword
    | .super id keyword method => Eval.superMethod id keyword method

/-- Values of expressions, from left to right. -/
def evaluateAll (host : Host) : Nat → List Expr → Eval (List Value)
  | 0, _ => Eval.outOfFuel
  | _ + 1, [] => return []
  | fuel + 1, e :: es => do
    let value ← evaluate host fuel e
    let values ← evaluateAll host fuel es
    return value :: values

/-- Calls a function, whatever the number of arguments: parameters without one stay undefined and
arguments without a parameter are dropped. A class makes an instance and has it set up. -/
def call (host : Host) : Nat → Callable → List Value → Eval Value
  | 0, _, _ => Eval.outOfFuel
  | fuel + 1, target, args =>
    match target with
    | .builtin .clock => Eval.readClock host
    | .closure c => do
      let frame ← Eval.newFrame c.frame
      Eval.defineAll frame ((c.decl.params.map Token.lexeme).zip args)
      let completion ← Eval.within frame (executeAll host fuel c.decl.body)
      callResult c completion
    | .ofClass c => do
      let i ← Eval.newInstance c
      match c.initializer? with
      | none => return .ofInstance i
      | some init =>
        let bound ← Eval.bind init i
        let _ ← call host fuel (.closure bound) args
        return .ofInstance i

def execute (host : Host) : Nat → Stmt → Eval Completion
  | 0, _ => Eval.outOfFuel
  | fuel + 1, s =>
    match s with
    | .expression e => do
      let _ ← evaluate host fuel e
      return .normal
    | .print e => do
      Eval.print host (← evaluate host fuel e)
      return .normal
    | .varDecl name initializer => do
      let value ← evaluateOptional host fuel initializer
      Eval.define (← Eval.currentFrame) name.lexeme value
      return .normal
    | .block body => do
      let frame ← Eval.newFrame (← Eval.currentFrame)
      Eval.within frame (executeAll host fuel body)
    | .ifElse condition thenBranch elseBranch => do
      if (← evaluate host fuel condition).isTruthy then
        execute host fuel thenBranch
      else
        match elseBranch with
        | none => return .normal
        | some other => execute host fuel other
    | .loop condition body => executeLoop host fuel condition body
    | .funDecl decl => do
      let frame ← Eval.currentFrame
      let function ← Eval.close decl frame false
      Eval.define frame decl.name.lexeme (.closure function)
      return .normal
    | .ret _ value => do
      return .returned (← evaluateOptional host fuel value)
    | .classDecl name superclass methods => do
      let parent ← evaluateSuperclass host fuel name superclass
      declareClass name parent methods
      return .normal

/-- Statements in order, up to the first that returns. -/
def executeAll (host : Host) : Nat → List Stmt → Eval Completion
  | 0, _ => Eval.outOfFuel
  | _ + 1, [] => return .normal
  | fuel + 1, s :: ss => do
    match ← execute host fuel s with
    | .returned value => return .returned value
    | .normal => executeAll host fuel ss

/-- A body as long as a condition holds, up to the first return. -/
def executeLoop (host : Host) : Nat → Expr → Stmt → Eval Completion
  | 0, _, _ => Eval.outOfFuel
  | fuel + 1, condition, body => do
    if (← evaluate host fuel condition).isTruthy then
      match ← execute host fuel body with
      | .returned value => return .returned value
      | .normal => executeLoop host fuel condition body
    else
      return .normal

/-- The value of an expression, `nichts` if there is none. -/
def evaluateOptional (host : Host) : Nat → Option Expr → Eval Value
  | 0, _ => Eval.outOfFuel
  | _ + 1, none => return .nil
  | fuel + 1, some e => evaluate host fuel e

/-- The class that a superclass clause stands for. -/
def evaluateSuperclass (host : Host) : Nat → Token → Option Expr → Eval (Option Class)
  | 0, _, _ => Eval.outOfFuel
  | _ + 1, _, none => return none
  | fuel + 1, name, some e => do
    match ← evaluate host fuel e with
    | .ofClass c => return some c
    | _ => Eval.fail (superclassToken name e) .superclassNotAClass

end

/-- Runs a program with its distances on top of all earlier ones. A return ends it. -/
def interpret (host : Host) (fuel : Nat) (distances : Distances) (program : List Stmt) :
    Eval Unit := do
  Eval.learn distances
  let _ ← executeAll host fuel program
  return ()

end GermanLox
