import GermanLox.Proofs.Reading.Soundness
import GermanLox.Proofs.Relabel

/-!
# Where the numbers start

A parser never looks at expression numbers: if they start higher, it does the same, and every number
in what it gives is higher by as much. This holds of failures too.
-/

namespace GermanLox

lemma Expr.relabelAll_eq_map (number : ExprId → ExprId) (token : Token → Token) (es : List Expr) :
    Expr.relabelAll number token es = es.map (Expr.relabel number token) := by
  induction es with
  | nil => rfl
  | cons e es ih => rw [relabelAll, ih, List.map_cons]

lemma Stmt.relabelAll_eq_map (number : ExprId → ExprId) (token : Token → Token) (ss : List Stmt) :
    Stmt.relabelAll number token ss = ss.map (Stmt.relabel number token) := by
  induction ss with
  | nil => rfl
  | cons s ss ih => rw [relabelAll, ih, List.map_cons]

lemma FunctionDecl.relabelAll_eq_map (number : ExprId → ExprId) (token : Token → Token)
    (decls : List FunctionDecl) :
    FunctionDecl.relabelAll number token decls = decls.map (FunctionDecl.relabel number token) := by
  induction decls with
  | nil => rfl
  | cons decl decls ih => rw [relabelAll, ih, List.map_cons]

/-- An expression with all its numbers higher by `n`. -/
def Expr.shift (n : Nat) (e : Expr) : Expr :=
  e.relabel (n + ·) fun t => t

def FunctionDecl.shift (n : Nat) (decl : FunctionDecl) : FunctionDecl :=
  decl.relabel (n + ·) fun t => t

def Stmt.shift (n : Nat) (s : Stmt) : Stmt :=
  s.relabel (n + ·) fun t => t

lemma Expr.shift_call (n : Nat) (i : ExprId) (callee : Expr) (paren : Token)
    (arguments : List Expr) :
    (Expr.call i callee paren arguments).shift n =
      .call (n + i) (callee.shift n) paren (arguments.map (Expr.shift n)) := by
  rw [shift, relabel, relabelAll_eq_map]
  rfl

lemma Operator.shift_apply (n : Nat) (op : Operator) (i : ExprId) (t : Token) (left right : Expr) :
    (op.apply i t left right).shift n = op.apply (n + i) t (left.shift n) (right.shift n) := by
  cases op <;> rfl

lemma Stmt.shift_block (n : Nat) (body : List Stmt) :
    (Stmt.block body).shift n = .block (body.map (Stmt.shift n)) := by
  rw [shift, relabel, relabelAll_eq_map]
  rfl

lemma Stmt.shift_classDecl (n : Nat) (name : Token) (superclass : Option Expr)
    (methods : List FunctionDecl) :
    (Stmt.classDecl name superclass methods).shift n =
      .classDecl name (superclass.map (Expr.shift n)) (methods.map (FunctionDecl.shift n)) := by
  rw [shift, relabel, FunctionDecl.relabelAll_eq_map]
  rfl

lemma FunctionDecl.shift_mk (n : Nat) (name : Token) (params : List Token) (body : List Stmt) :
    (FunctionDecl.mk name params body).shift n =
      ⟨name, params.map fun t => t, body.map (Stmt.shift n)⟩ := by
  rw [shift, relabel, Stmt.relabelAll_eq_map]
  rfl

namespace Parser

variable {α β γ δ : Type} {n : Nat}

def State.shift (n : Nat) (s : State) : State :=
  { s with nextId := n + s.nextId }

/-- A result with all its numbers higher by `n`, given what this means for a value. -/
def shiftResult (n : Nat) (g : α → β) :
    EStateM.Result Diagnostic State α → EStateM.Result Diagnostic State β
  | .ok a s => .ok (g a) (s.shift n)
  | .error d s => .error d (s.shift n)

/-- One parser does from higher numbers what the other does. -/
def Shifts (n : Nat) (g : α → β) (p : Parser α) (q : Parser β) : Prop :=
  ∀ s, q (s.shift n) = shiftResult n g (p s)

namespace Shifts

variable {g : α → β} {h : γ → δ} {p : Parser α} {q : Parser β}

lemma pure {a : α} {b : β} (hab : g a = b) : Shifts n g (Pure.pure a) (Pure.pure b) := by
  intro s
  subst hab
  rfl

lemma bind {f : α → Parser γ} {f' : β → Parser δ} (hp : Shifts n g p q)
    (hf : ∀ a, Shifts n h (f a) (f' (g a))) : Shifts n h (p >>= f) (q >>= f') := by
  intro s
  have hfirst := hp s
  cases hps : p s with
  | ok a s₁ =>
    rw [hps] at hfirst
    rw [EStateM.bind_of_ok hps, EStateM.bind_of_ok hfirst]
    exact hf a s₁
  | error d s₁ =>
    rw [hps] at hfirst
    rw [EStateM.bind_of_error hps, EStateM.bind_of_error hfirst]
    rfl

/-- What comes first gives no numbers. -/
lemma after {p : Parser α} {f : α → Parser γ} {f' : α → Parser δ} (hp : Shifts n (fun a => a) p p)
    (hf : ∀ a, Shifts n h (f a) (f' a)) : Shifts n h (p >>= f) (p >>= f') :=
  hp.bind hf

lemma map {f : α → γ} {f' : β → δ} (hp : Shifts n g p q) (hf : ∀ a, h (f a) = f' (g a)) :
    Shifts n h (f <$> p) (f' <$> q) := by
  rw [map_eq_pure_bind, map_eq_pure_bind]
  exact hp.bind fun a => pure (hf a)

lemma peek? : Shifts n (fun r => r) Parser.peek? Parser.peek? :=
  fun _ => rfl

lemma advance : Shifts n (fun r => r) Parser.advance Parser.advance :=
  fun _ => rfl

lemma nextIs (form : Token → Bool) :
    Shifts n (fun r => r) (Parser.nextIs form) (Parser.nextIs form) :=
  fun _ => rfl

lemma accept? (form : Token → Bool) :
    Shifts n (fun r => r) (Parser.accept? form) (Parser.accept? form) := by
  intro s
  obtain ⟨rest, line, k, notes⟩ := s
  cases rest with
  | nil => rfl
  | cons t ts =>
    simp only [Parser.accept?, State.shift]
    split <;> rfl

lemma fail (cause : SyntaxFault) : Shifts n g (Parser.fail cause) (Parser.fail cause) :=
  fun _ => rfl

lemma note (line : Nat) (cause : SyntaxFault) :
    Shifts n (fun r => r) (Parser.note line cause) (Parser.note line cause) :=
  fun _ => rfl

lemma noteHere (cause : SyntaxFault) :
    Shifts n (fun r => r) (Parser.noteHere cause) (Parser.noteHere cause) :=
  fun _ => rfl

lemma freshId : Shifts n (n + ·) Parser.freshId Parser.freshId :=
  fun _ => rfl

/-- A node that takes the next number. -/
lemma node {make : ExprId → α} {make' : ExprId → β} (hmake : ∀ i, g (make i) = make' (n + i)) :
    Shifts n g (do return make (← Parser.freshId)) (do return make' (← Parser.freshId)) :=
  freshId.bind fun i => pure (hmake i)

lemma expect (form : Token → Bool) (cause : SyntaxFault) :
    Shifts n (fun r => r) (Parser.expect form cause) (Parser.expect form cause) := by
  refine (accept? form).after fun r => ?_
  cases r with
  | some t => exact pure rfl
  | none => exact fail cause

lemma recover (hp : Shifts n g p q) :
    Shifts n (Option.map g) (Parser.recover p) (Parser.recover q) := by
  intro s
  unfold Parser.recover
  rw [hp s]
  cases p s with
  | ok a s₁ => rfl
  | error d s₁ => rfl

lemma noteOverlong (tooMany : SyntaxFault) (count : Nat) :
    Shifts n (fun r => r) (Parser.noteOverlong tooMany count)
      (Parser.noteOverlong tooMany count) := by
  unfold Parser.noteOverlong
  split
  · exact noteHere tooMany
  · exact pure rfl

lemma entries (hp : Shifts n g p q) (tooMany : SyntaxFault) (room count : Nat) :
    Shifts n (List.map g) (Parser.entries p tooMany room count)
      (Parser.entries q tooMany room count) := by
  induction room generalizing count with
  | zero =>
    rw [entries_eq, entries_eq]
    exact (noteOverlong tooMany count).after fun _ => hp.bind fun _ => pure rfl
  | succ room ih =>
    rw [entries_eq, entries_eq]
    refine (noteOverlong tooMany count).after fun _ => hp.bind fun first =>
      (accept? _).after fun r => ?_
    cases r with
    | none => exact pure rfl
    | some t => exact (ih _).bind fun _ => pure rfl

lemma entriesOrNone (hp : Shifts n g p q) (tooMany : SyntaxFault) (room : Nat) :
    Shifts n (List.map g) (Parser.entriesOrNone p tooMany room)
      (Parser.entriesOrNone q tooMany room) := by
  refine (nextIs _).after fun stop => ?_
  cases stop with
  | true => exact pure rfl
  | false => exact hp.entries tooMany room 0

lemma itemsUntil {item : Parser (Option α)} {item' : Parser (Option β)}
    (hitem : Shifts n (Option.map g) item item') (stop : Token → Bool) (room : Nat) :
    Shifts n (List.map g) (Parser.itemsUntil stop item room)
      (Parser.itemsUntil stop item' room) := by
  induction room with
  | zero => exact pure rfl
  | succ room ih =>
    refine peek?.after fun r => ?_
    cases r with
    | none => exact pure rfl
    | some t =>
      dsimp only
      split
      · exact pure rfl
      · exact hitem.bind fun first => ih.bind fun _ => pure (by cases first <;> simp)

section Expressions

variable {inner inner' : Parser Expr}

lemma literal (value : Literal) :
    Shifts n (Expr.shift n) (Parser.literal value) (Parser.literal value) :=
  advance.after fun _ => node fun _ => rfl

lemma primary (hinner : Shifts n (Expr.shift n) inner inner') :
    Shifts n (Expr.shift n) (Parser.primary inner) (Parser.primary inner') := by
  refine peek?.after fun r => ?_
  cases r with
  | none => exact fail _
  | some t =>
    dsimp only
    split
    · exact literal _
    · exact literal _
    · exact literal _
    · exact literal _
    · exact literal _
    · exact advance.after fun _ => (expect _ _).after fun _ => (expect _ _).after fun _ =>
        node fun _ => rfl
    · exact advance.after fun _ => node fun _ => rfl
    · exact advance.after fun _ => node fun _ => rfl
    · exact advance.after fun _ => hinner.bind fun _ => (expect _ _).after fun _ =>
        node fun _ => rfl
    · exact fail _

lemma suffixes (hinner : Shifts n (Expr.shift n) inner inner') (room : Nat) (e : Expr) :
    Shifts n (Expr.shift n) (Parser.suffixes inner room e)
      (Parser.suffixes inner' room (e.shift n)) := by
  induction room generalizing e with
  | zero => exact pure rfl
  | succ room ih =>
    refine (accept? _).after fun r => ?_
    cases r with
    | some t =>
      refine (hinner.entriesOrNone _ room).bind fun arguments => (expect _ _).after fun paren =>
        freshId.bind fun i => ?_
      rw [← Expr.shift_call]
      exact ih _
    | none =>
      refine (accept? _).after fun r => ?_
      cases r with
      | some t => exact (expect _ _).after fun _ => freshId.bind fun i => ih (.get i e _)
      | none => exact pure rfl

lemma signs (room : Nat) : Shifts n (fun r => r) (Parser.signs room) (Parser.signs room) := by
  induction room with
  | zero => exact pure rfl
  | succ room ih =>
    refine (accept? _).after fun r => ?_
    cases r with
    | none => exact pure rfl
    | some t => exact ih.after fun _ => pure rfl

lemma signed (ops : List (UnaryOp × Token)) (e : Expr) :
    Shifts n (Expr.shift n) (Parser.signed ops e) (Parser.signed ops (e.shift n)) := by
  induction ops with
  | nil => exact pure rfl
  | cons op ops ih => exact ih.bind fun _ => node fun _ => rfl

lemma unary (hinner : Shifts n (Expr.shift n) inner inner') (room : Nat) :
    Shifts n (Expr.shift n) (Parser.unary room inner) (Parser.unary room inner') :=
  (signs room).after fun ops =>
    (hinner.primary.bind fun e => hinner.suffixes room e).bind fun e => signed ops e

lemma operation {operand operand' : Parser Expr}
    (hoperand : Shifts n (Expr.shift n) operand operand') (room : Nat) (level : Precedence) :
    Shifts n (Expr.shift n) (Parser.operation room operand level)
      (Parser.operation room operand' level) := by
  refine hoperand.bind fun left => ?_
  induction room generalizing left with
  | zero => exact pure rfl
  | succ room ih =>
    refine peek?.after fun r => ?_
    cases r with
    | none => exact pure rfl
    | some t =>
      dsimp only
      split
      · exact pure rfl
      · refine advance.after fun _ => hoperand.bind fun right => freshId.bind fun i => ?_
        rw [← Operator.shift_apply]
        exact ih _

lemma assignment (hinner : Shifts n (Expr.shift n) inner inner') (room : Nat) :
    Shifts n (Expr.shift n) (Parser.assignment room inner) (Parser.assignment room inner') := by
  have hoperations : Shifts n (Expr.shift n) (Parser.operations room inner)
      (Parser.operations room inner') :=
    (((((hinner.unary room).operation room _).operation room _).operation room _).operation room
      _).operation room _ |>.operation room _
  refine hoperations.bind fun target => (accept? _).after fun r => ?_
  cases r with
  | none => exact pure rfl
  | some sign =>
    refine hinner.bind fun value => ?_
    cases target with
    | var => exact node fun _ => rfl
    | get => exact node fun _ => rfl
    | _ => exact (note _ _).after fun _ => pure rfl

lemma expression (room : Nat) :
    Shifts n (Expr.shift n) (Parser.expression room) (Parser.expression room) := by
  induction room with
  | zero => exact fail _
  | succ room ih => exact ih.assignment (room + 1)

end Expressions

lemma terminated (room : Nat) (cause : SyntaxFault) :
    Shifts n (Expr.shift n) (Parser.terminated room cause) (Parser.terminated room cause) :=
  (expression room).bind fun _ => (expect _ _).after fun _ => pure rfl

lemma expressionUnless (room : Nat) (stop : Symbol) :
    Shifts n (Option.map (Expr.shift n)) (Parser.expressionUnless room stop)
      (Parser.expressionUnless room stop) := by
  refine (nextIs _).after fun stops => ?_
  cases stops with
  | true => exact pure rfl
  | false => exact (expression room).bind fun _ => pure rfl

lemma expressionStatement (room : Nat) :
    Shifts n (Stmt.shift n) (Parser.expressionStatement room) (Parser.expressionStatement room) :=
  (terminated room _).bind fun _ => pure rfl

lemma varDeclaration (room : Nat) :
    Shifts n (Stmt.shift n) (Parser.varDeclaration room) (Parser.varDeclaration room) := by
  refine (expect _ _).after fun name => (accept? _).after fun r => ?_
  cases r with
  | some t =>
    exact ((expression room).map (h := Option.map (Expr.shift n)) fun _ => rfl).bind fun _ =>
      (expect _ _).after fun _ => pure rfl
  | none =>
    exact (pure (g := Option.map (Expr.shift n)) rfl).bind fun _ =>
      (expect _ _).after fun _ => pure rfl

section Statements

variable {statement statement' : Parser Stmt} {item item' : Parser (Option Stmt)}

lemma block (hitem : Shifts n (Option.map (Stmt.shift n)) item item') (room : Nat) :
    Shifts n (List.map (Stmt.shift n)) (Parser.block room item) (Parser.block room item') :=
  (hitem.itemsUntil _ room).bind fun _ => (expect _ _).after fun _ => pure rfl

lemma routine (hitem : Shifts n (Option.map (Stmt.shift n)) item item') (room : Nat)
    (kind : Routine) :
    Shifts n (FunctionDecl.shift n) (Parser.routine room kind item)
      (Parser.routine room kind item') := by
  have hparams := (expect (n := n) (·.isIdentifier) .parameterNameExpected).entriesOrNone
    .tooManyParameters room
  refine (expect _ _).after fun _ => (expect _ _).after fun _ => hparams.bind fun _ =>
    (expect _ _).after fun _ => (expect _ _).after fun _ => (hitem.block room).bind fun body => ?_
  exact pure (FunctionDecl.shift_mk n _ _ body)

lemma superclass :
    Shifts n (Option.map (Expr.shift n)) Parser.superclass Parser.superclass := by
  refine (accept? _).after fun r => ?_
  cases r with
  | none => exact pure rfl
  | some t => exact (expect _ _).after fun _ => node fun _ => rfl

lemma classDeclaration (hitem : Shifts n (Option.map (Stmt.shift n)) item item') (room : Nat) :
    Shifts n (Stmt.shift n) (Parser.classDeclaration room item)
      (Parser.classDeclaration room item') := by
  have hmethod : Shifts n (Option.map (FunctionDecl.shift n))
      (some <$> Parser.routine room .method item) (some <$> Parser.routine room .method item') :=
    (hitem.routine room .method).map fun _ => rfl
  refine (expect _ _).after fun _ => superclass.bind fun parent => (expect _ _).after fun _ =>
    (hmethod.itemsUntil _ room).bind fun methods => (expect _ _).after fun _ => ?_
  exact pure (Stmt.shift_classDecl n _ parent methods)

lemma forInitializer (room : Nat) :
    Shifts n (Option.map (Stmt.shift n)) (Parser.forInitializer room)
      (Parser.forInitializer room) := by
  refine (accept? _).after fun r => ?_
  cases r with
  | some t => exact pure rfl
  | none =>
    refine (accept? _).after fun r => ?_
    cases r with
    | some t => exact (varDeclaration room).map fun _ => rfl
    | none => exact (expressionStatement room).map fun _ => rfl

lemma forStatement (hstatement : Shifts n (Stmt.shift n) statement statement') (room : Nat) :
    Shifts n (Stmt.shift n) (Parser.forStatement room statement)
      (Parser.forStatement room statement') := by
  refine (expect _ _).after fun _ => (forInitializer room).bind fun initializer =>
    (expressionUnless room _).bind fun condition => (expect _ _).after fun _ =>
    (expressionUnless room _).bind fun increment => (expect _ _).after fun _ =>
    hstatement.bind fun body => ?_
  cases condition with
  | none =>
    refine (freshId.map (h := Expr.shift n) fun _ => rfl).bind fun condition => ?_
    cases initializer <;> cases increment <;> exact pure rfl
  | some e =>
    refine (pure (g := Expr.shift n) rfl).bind fun condition => ?_
    cases initializer <;> cases increment <;> exact pure rfl

lemma statementOver (hstatement : Shifts n (Stmt.shift n) statement statement')
    (hitem : Shifts n (Option.map (Stmt.shift n)) item item') (room : Nat) :
    Shifts n (Stmt.shift n) (Parser.statementOver room statement item)
      (Parser.statementOver room statement' item') := by
  have hbranch : Shifts n (Stmt.shift n) (Parser.ifStatement room statement)
      (Parser.ifStatement room statement') := by
    refine (expect _ _).after fun _ => (expression room).bind fun _ => (expect _ _).after fun _ =>
      hstatement.bind fun _ => (accept? _).after fun r => ?_
    cases r with
    | none => exact pure rfl
    | some t => exact hstatement.bind fun _ => pure rfl
  refine peek?.after fun r => ?_
  cases r with
  | none => exact expressionStatement room
  | some t =>
    dsimp only
    split
    · exact advance.after fun _ => hstatement.forStatement room
    · exact advance.after fun _ => hbranch
    · exact advance.after fun _ => (expect _ _).after fun _ => (expression room).bind fun _ =>
        (expect _ _).after fun _ => hstatement.bind fun _ => pure rfl
    · exact advance.after fun _ => (expressionUnless room _).bind fun _ =>
        (expect _ _).after fun _ => pure rfl
    · exact advance.after fun _ => (terminated room _).bind fun _ => pure rfl
    · exact advance.after fun _ => (hitem.block room).bind fun body =>
        pure (Stmt.shift_block n body)
    · exact expressionStatement room

lemma itemOver (hstatement : Shifts n (Stmt.shift n) statement statement')
    (hitem : Shifts n (Option.map (Stmt.shift n)) item item') (room : Nat) :
    Shifts n (Option.map (Stmt.shift n)) (Parser.itemOver room statement item)
      (Parser.itemOver room statement' item') := by
  refine (peek?.after fun r => ?_).recover
  cases r with
  | none => exact hstatement.statementOver hitem room
  | some t =>
    dsimp only
    split
    · exact advance.after fun _ => hitem.classDeclaration room
    · exact advance.after fun _ => (hitem.routine room _).bind fun _ => pure rfl
    · exact advance.after fun _ => varDeclaration room
    · exact hstatement.statementOver hitem room

lemma statement_item (room : Nat) :
    Shifts n (Stmt.shift n) (Parser.statement room) (Parser.statement room) ∧
      Shifts n (Option.map (Stmt.shift n)) (Parser.item room) (Parser.item room) := by
  induction room with
  | zero => exact ⟨fail _, (fail _).recover⟩
  | succ room ih => exact ⟨ih.1.statementOver ih.2 _, ih.1.itemOver ih.2 _⟩

lemma program (room : Nat) :
    Shifts n (List.map (Stmt.shift n)) (Parser.program room) (Parser.program room) :=
  (statement_item room).2.itemsUntil _ room

end Statements

end Shifts
end Parser

/-- From a higher first number the same is parsed, with all numbers higher by as much. -/
lemma parse_add (tokens : List Token) (n k : ExprId) :
    parse tokens (n + k) =
      ⟨(parse tokens k).outcome.map (List.map (Stmt.shift n)), n + (parse tokens k).nextId⟩ := by
  have hprogram := Parser.Shifts.program (n := n) tokens.length (Parser.State.start tokens k)
  have hstart : (Parser.State.start tokens k).shift n = Parser.State.start tokens (n + k) := rfl
  rw [hstart] at hprogram
  unfold parse
  rw [hprogram]
  cases Parser.program tokens.length (Parser.State.start tokens k) with
  | ok program s =>
    simp only [Parser.shiftResult, Parser.State.shift]
    split <;> rfl
  | error d s => rfl

end GermanLox
