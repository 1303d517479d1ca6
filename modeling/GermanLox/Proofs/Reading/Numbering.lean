import GermanLox.Proofs.Reading.Contents
import GermanLox.Proofs.Reading.Programs
import GermanLox.Proofs.Reading.Shifted

/-!
# How expressions are numbered

A program that parses has its expressions numbered strictly: no number twice, each between the first
number and the next free one, and every node above all nodes below it. Each node uses up one number;
an assignment uses up two, since its target was numbered before it was known to be one.
-/

namespace GermanLox

mutual

/-- All nodes below an expression. -/
def Expr.beneath : Expr → List Expr
  | .literal .. => []
  | .grouping _ e => e :: e.beneath
  | .unary _ _ _ e => e :: e.beneath
  | .binary _ _ _ left right => left :: left.beneath ++ right :: right.beneath
  | .logical _ _ _ left right => left :: left.beneath ++ right :: right.beneath
  | .var .. => []
  | .assign _ _ value => value :: value.beneath
  | .call _ callee _ arguments => callee :: callee.beneath ++ Expr.nodesAll arguments
  | .get _ object _ => object :: object.beneath
  | .set _ object _ value => object :: object.beneath ++ value :: value.beneath
  | .this .. => []
  | .super .. => []

def Expr.nodesAll : List Expr → List Expr
  | [] => []
  | e :: es => e :: e.beneath ++ Expr.nodesAll es

end

/-- An expression with all nodes below it. -/
def Expr.nodes (e : Expr) : List Expr :=
  e :: e.beneath

def Expr.nodesOf : Option Expr → List Expr
  | none => []
  | some e => e.nodes

mutual

/-- All nodes of the expressions of a statement. -/
def Stmt.nodes : Stmt → List Expr
  | .expression e => e.nodes
  | .print e => e.nodes
  | .varDecl _ initializer => Expr.nodesOf initializer
  | .block body => Stmt.nodesAll body
  | .ifElse condition thenBranch none => condition.nodes ++ thenBranch.nodes
  | .ifElse condition thenBranch (some elseBranch) =>
    condition.nodes ++ (thenBranch.nodes ++ elseBranch.nodes)
  | .loop condition body => condition.nodes ++ body.nodes
  | .funDecl decl => decl.nodes
  | .ret _ value => Expr.nodesOf value
  | .classDecl _ superclass methods => Expr.nodesOf superclass ++ FunctionDecl.nodesAll methods

def Stmt.nodesAll : List Stmt → List Expr
  | [] => []
  | s :: ss => s.nodes ++ Stmt.nodesAll ss

def FunctionDecl.nodes : FunctionDecl → List Expr
  | ⟨_, _, body⟩ => Stmt.nodesAll body

def FunctionDecl.nodesAll : List FunctionDecl → List Expr
  | [] => []
  | decl :: decls => decl.nodes ++ FunctionDecl.nodesAll decls

end

/-- Whether a node replaced the target that was read before it. -/
def Expr.isAssignment : Expr → Bool
  | .assign .. => true
  | .set .. => true
  | _ => false

mutual

lemma Expr.numbers_eq (e : Expr) : e.numbers = e.nodes.map Expr.id := by
  match e with
  | .literal .. => rfl
  | .grouping _ e => simp [numbers, nodes, beneath, e.numbers_eq, Expr.id]
  | .unary _ _ _ e => simp [numbers, nodes, beneath, e.numbers_eq, Expr.id]
  | .binary _ _ _ left right =>
    simp [numbers, nodes, beneath, left.numbers_eq, right.numbers_eq, Expr.id]
  | .logical _ _ _ left right =>
    simp [numbers, nodes, beneath, left.numbers_eq, right.numbers_eq, Expr.id]
  | .var .. => rfl
  | .assign _ _ value => simp [numbers, nodes, beneath, value.numbers_eq, Expr.id]
  | .call _ callee _ arguments =>
    simp [numbers, nodes, beneath, callee.numbers_eq, Expr.numbersAll_eq arguments, Expr.id]
  | .get _ object _ => simp [numbers, nodes, beneath, object.numbers_eq, Expr.id]
  | .set _ object _ value =>
    simp [numbers, nodes, beneath, object.numbers_eq, value.numbers_eq, Expr.id]
  | .this .. => rfl
  | .super .. => rfl

lemma Expr.numbersAll_eq (es : List Expr) :
    Expr.numbersAll es = (Expr.nodesAll es).map Expr.id := by
  match es with
  | [] => rfl
  | e :: es =>
    rw [numbersAll, nodesAll, e.numbers_eq, Expr.numbersAll_eq es, ← List.map_append]
    rfl

end

lemma Expr.numbersOf_eq (e : Option Expr) :
    Expr.numbersOf e = (Expr.nodesOf e).map Expr.id := by
  cases e with
  | none => rfl
  | some e => exact e.numbers_eq

mutual

lemma Stmt.numbers_eq (s : Stmt) : s.numbers = s.nodes.map Expr.id := by
  match s with
  | .expression e => exact e.numbers_eq
  | .print e => exact e.numbers_eq
  | .varDecl _ initializer => exact Expr.numbersOf_eq initializer
  | .block body => exact Stmt.numbersAll_eq body
  | .ifElse condition thenBranch none =>
    simp [Stmt.numbers, Stmt.nodes, condition.numbers_eq, thenBranch.numbers_eq]
  | .ifElse condition thenBranch (some elseBranch) =>
    simp [Stmt.numbers, Stmt.nodes, condition.numbers_eq, thenBranch.numbers_eq,
      elseBranch.numbers_eq]
  | .loop condition body => simp [Stmt.numbers, Stmt.nodes, condition.numbers_eq, body.numbers_eq]
  | .funDecl decl => exact decl.numbers_eq
  | .ret _ value => exact Expr.numbersOf_eq value
  | .classDecl _ superclass methods =>
    simp [Stmt.numbers, Stmt.nodes, Expr.numbersOf_eq, FunctionDecl.numbersAll_eq methods]

lemma Stmt.numbersAll_eq (ss : List Stmt) :
    Stmt.numbersAll ss = (Stmt.nodesAll ss).map Expr.id := by
  match ss with
  | [] => rfl
  | s :: ss => simp [Stmt.numbersAll, Stmt.nodesAll, s.numbers_eq, Stmt.numbersAll_eq ss]

lemma FunctionDecl.numbers_eq (decl : FunctionDecl) :
    decl.numbers = decl.nodes.map Expr.id := by
  match decl with
  | ⟨_, _, body⟩ => exact Stmt.numbersAll_eq body

lemma FunctionDecl.numbersAll_eq (decls : List FunctionDecl) :
    FunctionDecl.numbersAll decls = (FunctionDecl.nodesAll decls).map Expr.id := by
  match decls with
  | [] => rfl
  | decl :: decls =>
    simp [FunctionDecl.numbersAll, FunctionDecl.nodesAll, decl.numbers_eq,
      FunctionDecl.numbersAll_eq decls]

end

namespace Reading

/-- How the numbers from `k` up to `k'` were used up by some nodes. -/
structure Tally (k k' : Nat) (nodes : List Expr) : Prop where
  lt : ∀ e ∈ nodes, e.id < k'
  above : ∀ e ∈ nodes, ∀ e' ∈ e.beneath, e'.id < e.id
  count : k' = k + (nodes.length + nodes.countP Expr.isAssignment)

namespace Tally

variable {k k₁ k' : Nat} {nodes nodes' : List Expr} {e : Expr}

lemma nil (k : Nat) : Tally k k [] :=
  ⟨by simp, by simp, by simp⟩

lemma append (h : Tally k k₁ nodes) (h' : Tally k₁ k' nodes') : Tally k k' (nodes ++ nodes') := by
  have hcount := h.count
  have hcount' := h'.count
  have hle : k₁ ≤ k' := by omega
  refine ⟨fun e he => ?_, fun e he => ?_, ?_⟩
  · rcases List.mem_append.mp he with he | he
    · exact Nat.lt_of_lt_of_le (h.lt e he) hle
    · exact h'.lt e he
  · rcases List.mem_append.mp he with he | he
    · exact h.above e he
    · exact h'.above e he
  · rw [List.length_append, List.countP_append]
    omega

/-- One more node, above nodes that are there. -/
lemma node (h : Tally k k' nodes) (hid : e.id = k') (hbelow : ∀ e' ∈ e.beneath, e' ∈ nodes)
    (hplain : e.isAssignment = false) : Tally k (k' + 1) (e :: nodes) := by
  refine ⟨fun e' he' => ?_, fun e' he' => ?_, ?_⟩
  · rcases List.mem_cons.mp he' with rfl | he'
    · exact hid ▸ Nat.lt_succ_self k'
    · exact Nat.lt_succ_of_lt (h.lt e' he')
  · rcases List.mem_cons.mp he' with rfl | he'
    · intro e'' he''
      rw [hid]
      exact h.lt e'' (hbelow e'' he'')
    · exact h.above e' he'
  · have hcount := h.count
    rw [List.length_cons, List.countP_cons_of_neg (by simp [hplain])]
    omega

/-- An assignment takes the place of its target, whose number is lost. -/
lemma assignment {target : Expr} (h : Tally k k' (target :: nodes)) (hid : e.id = k')
    (hbelow : ∀ e' ∈ e.beneath, e' ∈ nodes) (htarget : target.isAssignment = false)
    (hassign : e.isAssignment) : Tally k (k' + 1) (e :: nodes) := by
  refine ⟨fun e' he' => ?_, fun e' he' => ?_, ?_⟩
  · rcases List.mem_cons.mp he' with rfl | he'
    · exact hid ▸ Nat.lt_succ_self k'
    · exact Nat.lt_succ_of_lt (h.lt e' (List.mem_cons_of_mem _ he'))
  · rcases List.mem_cons.mp he' with rfl | he'
    · intro e'' he''
      rw [hid]
      exact h.lt e'' (List.mem_cons_of_mem _ (hbelow e'' he''))
    · exact h.above e' (List.mem_cons_of_mem _ he')
  · have hcount := h.count
    rw [List.length_cons, List.countP_cons_of_neg (by simp [htarget])] at hcount
    rw [List.length_cons, List.countP_cons_of_pos hassign]
    omega

/-- The order of the nodes does not count. -/
lemma perm (h : Tally k k' nodes) (hperm : nodes.Perm nodes') : Tally k k' nodes' :=
  ⟨fun e he => h.lt e (hperm.mem_iff.mpr he), fun e he => h.above e (hperm.mem_iff.mpr he),
    by rw [← hperm.length_eq, ← hperm.countP_eq]; exact h.count⟩

end Tally

mutual

lemma Primary.tally {k ts e k' ds} (h : Primary k ts e k' ds) (hds : ds = []) :
    Tally k k' e.nodes := by
  match h with
  | .literal _ => exact (Tally.nil k).node rfl (by simp [Expr.beneath]) rfl
  | .super _ _ _ => exact (Tally.nil k).node rfl (by simp [Expr.beneath]) rfl
  | .this _ => exact (Tally.nil k).node rfl (by simp [Expr.beneath]) rfl
  | .var _ => exact (Tally.nil k).node rfl (by simp [Expr.beneath]) rfl
  | .grouping _ he _ => exact (he.tally hds).node rfl (fun _ h => h) rfl

lemma Call.tally {k ts e k' ds} (h : Call k ts e k' ds) (hds : ds = []) :
    Tally k k' e.nodes := by
  match h with
  | .primary h => exact h.tally hds
  | .call hcallee _ hargs _ =>
    obtain ⟨hds, hds'⟩ := List.append_eq_nil_iff.mp hds
    exact ((hcallee.tally hds).append (hargs.tally hds')).node rfl (fun _ h => h) rfl
  | .get hobject _ _ => exact (hobject.tally hds).node rfl (fun _ h => h) rfl

lemma Arguments.tally {k ts es k' ds} (h : Arguments k ts es k' ds) (hds : ds = []) :
    Tally k k' (Expr.nodesAll es) := by
  match h with
  | .none => exact .nil k
  | .some h => exact h.tally hds

lemma Entries.tally {count k ts es k' ds} (h : Entries count k ts es k' ds) (hds : ds = []) :
    Tally k k' (Expr.nodesAll es) := by
  match h with
  | .last he =>
    obtain ⟨-, hds⟩ := List.append_eq_nil_iff.mp hds
    exact (he.tally hds).append (.nil k')
  | .more he _ hes =>
    obtain ⟨hds, hds'⟩ := List.append_eq_nil_iff.mp hds
    obtain ⟨-, hds⟩ := List.append_eq_nil_iff.mp hds
    exact (he.tally hds).append (hes.tally hds')

lemma Unary.tally {k ts e k' ds} (h : Unary k ts e k' ds) (hds : ds = []) :
    Tally k k' e.nodes := by
  match h with
  | .call h => exact h.tally hds
  | .sign _ he => exact (he.tally hds).node rfl (fun _ h => h) rfl

lemma Operation.tally {ps k ts e k' ds} (h : Operation ps k ts e k' ds) (hds : ds = []) :
    Tally k k' e.nodes := by
  match h with
  | .unary h => exact h.tally hds
  | .operand h => exact h.tally hds
  | @Operation.apply _ _ _ _ _ _ _ _ op _ _ _ _ hleft _ hright =>
    obtain ⟨hds, hds'⟩ := List.append_eq_nil_iff.mp hds
    have hparts := (hleft.tally hds).append (hright.tally hds')
    cases op with
    | binary op => exact hparts.node rfl (fun _ h => h) rfl
    | logical op => exact hparts.node rfl (fun _ h => h) rfl

lemma Expression.tally {k ts e k' ds} (h : Expression k ts e k' ds) (hds : ds = []) :
    Tally k k' e.nodes := by
  match h with
  | .operation h => exact h.tally hds
  | .assign htarget _ hvalue =>
    obtain ⟨hds, hds'⟩ := List.append_eq_nil_iff.mp hds
    exact ((htarget.tally hds).append (hvalue.tally hds')).assignment rfl (fun _ h => h) rfl rfl
  | .set htarget _ hvalue =>
    obtain ⟨hds, hds'⟩ := List.append_eq_nil_iff.mp hds
    exact ((htarget.tally hds).append (hvalue.tally hds')).assignment rfl (fun _ h => h) rfl rfl
  | .invalid _ _ _ _ => simp at hds

end

lemma Optional.tally {k ts e k' ds} (h : Optional k ts e k' ds) (hds : ds = []) :
    Tally k k' (Expr.nodesOf e) := by
  cases h with
  | none => exact .nil k
  | some h => exact h.tally hds

lemma Variable.tally {k ts s k' ds} (h : Variable k ts s k' ds) (hds : ds = []) :
    Tally k k' s.nodes := by
  cases h with
  | plain => exact .nil k
  | initialized _ _ he _ => exact he.tally hds

lemma Superclass.tally {k ts e k'} (h : Superclass k ts e k') : Tally k k' (Expr.nodesOf e) := by
  cases h with
  | none => exact .nil k
  | some => exact (Tally.nil k).node rfl (by simp [Expr.beneath]) rfl

lemma Initializer.tally {k ts s k' ds} (h : Initializer k ts s k' ds) (hds : ds = []) :
    Tally k k' (Stmt.nodesAll s.toList) := by
  cases h with
  | none => exact .nil k
  | varDecl _ h => exact (h.tally hds).append (.nil k')
  | expression he _ => exact (he.tally hds).append (.nil k')

/-- A condition that was left out is numbered last. -/
lemma loopCondition_tally {k k' nodes} {condition : Option Expr}
    (h : Tally k k' (Expr.nodesOf condition ++ nodes)) :
    Tally k (loopCondition k' condition).2 ((loopCondition k' condition).1.nodes ++ nodes) := by
  cases condition with
  | none => exact h.node rfl (by simp [loopCondition, Expr.beneath]) rfl
  | some e => exact h

lemma nodes_loopBody (body : Stmt) (increment : Option Expr) :
    (loopBody body increment).nodes = body.nodes ++ Expr.nodesOf increment := by
  cases increment <;> simp [loopBody, Stmt.nodes, Stmt.nodesAll, Expr.nodesOf]

lemma nodes_loopBlock (loop : Stmt) (first : Option Stmt) :
    (loopBlock loop first).nodes = Stmt.nodesAll first.toList ++ loop.nodes := by
  cases first <;> simp [loopBlock, Stmt.nodes, Stmt.nodesAll]

mutual

lemma Statement.tally {dangling k ts s k' ds} (h : Statement dangling k ts s k' ds)
    (hds : ds = []) : Tally k k' s.nodes := by
  match h with
  | .expression he _ => exact he.tally hds
  | .print _ he _ => exact he.tally hds
  | .ret _ hvalue _ => exact hvalue.tally hds
  | .block _ hbody _ => exact hbody.tally hds
  | .loop _ _ he _ hbody =>
    obtain ⟨hds, hds'⟩ := List.append_eq_nil_iff.mp hds
    exact (he.tally hds).append (hbody.tally hds')
  | .count _ _ hfirst hcondition _ hincrement _ hbody =>
    obtain ⟨hds, hds₄⟩ := List.append_eq_nil_iff.mp hds
    obtain ⟨hds, hds₃⟩ := List.append_eq_nil_iff.mp hds
    obtain ⟨hds₁, hds₂⟩ := List.append_eq_nil_iff.mp hds
    have hparts := (hcondition.tally hds₂).append
      ((hincrement.tally hds₃).append (hbody.tally hds₄))
    have hloop := (hfirst.tally hds₁).append (loopCondition_tally hparts)
    -- in the tree the body comes before the increment
    refine hloop.perm ?_
    rw [nodes_loopBlock, Stmt.nodes, nodes_loopBody]
    exact (List.perm_append_comm.append_left _).append_left _
  | .ifThen _ _ he _ hthen =>
    obtain ⟨hds, hds'⟩ := List.append_eq_nil_iff.mp hds
    exact (he.tally hds).append (hthen.tally hds')
  | .ifElse _ _ he _ hthen _ helse =>
    obtain ⟨hds, hds₃⟩ := List.append_eq_nil_iff.mp hds
    obtain ⟨hds₁, hds₂⟩ := List.append_eq_nil_iff.mp hds
    exact (he.tally hds₁).append ((hthen.tally hds₂).append (helse.tally hds₃))

lemma Declaration.tally {dangling k ts s k' ds} (h : Declaration dangling k ts s k' ds)
    (hds : ds = []) : Tally k k' s.nodes := by
  match h with
  | .classDecl _ _ hparent _ hmethods _ => exact hparent.tally.append (hmethods.tally hds)
  | .funDecl _ hdecl => exact hdecl.tally hds
  | .varDecl _ h => exact h.tally hds
  | .statement h => exact h.tally hds

lemma Declarations.tally {k ts ss k' ds} (h : Declarations k ts ss k' ds) (hds : ds = []) :
    Tally k k' (Stmt.nodesAll ss) := by
  match h with
  | .nil => exact .nil k
  | .cons hs hss =>
    obtain ⟨hds, hds'⟩ := List.append_eq_nil_iff.mp hds
    exact (hs.tally hds).append (hss.tally hds')

lemma Function.tally {k ts decl k' ds} (h : Function k ts decl k' ds) (hds : ds = []) :
    Tally k k' decl.nodes := by
  match h with
  | .mk _ _ _ _ _ hbody _ =>
    obtain ⟨-, hds'⟩ := List.append_eq_nil_iff.mp hds
    exact hbody.tally hds'

lemma Functions.tally {k ts decls k' ds} (h : Functions k ts decls k' ds) (hds : ds = []) :
    Tally k k' (FunctionDecl.nodesAll decls) := by
  match h with
  | .nil => exact .nil k
  | .cons hdecl hdecls =>
    obtain ⟨hds, hds'⟩ := List.append_eq_nil_iff.mp hds
    exact (hdecl.tally hds).append (hdecls.tally hds')

end

end Reading

/-- A strict numbering of the nodes of a program by the numbers from `k` up to `k'`. -/
structure Numbering (k k' : ExprId) (program : List Stmt) : Prop where
  distinct : ((Stmt.nodesAll program).map Expr.id).Nodup
  within : ∀ e ∈ Stmt.nodesAll program, k ≤ e.id ∧ e.id < k'
  above : ∀ e ∈ Stmt.nodesAll program, ∀ e' ∈ e.beneath, e'.id < e.id
  count : k' = k + ((Stmt.nodesAll program).length +
    (Stmt.nodesAll program).countP Expr.isAssignment)

lemma Reading.Declarations.numbering {k ts program k'} (h : Declarations k ts program k' []) :
    Numbering k k' program := by
  have haccount := h.account
  rw [Stmt.numbersAll_eq] at haccount
  exact {
    distinct := haccount.nodup_numbers
    within := fun e he => haccount.mem_numbers (List.mem_map_of_mem he)
    above := (h.tally rfl).above
    count := (h.tally rfl).count }

/-- A program that parses is numbered strictly from the first number on, and where this number
starts makes no difference but for the numbers. -/
theorem parse_numbers_strictly (tokens : List Token) (k : ExprId) :
    (∀ program k', parse tokens k = ⟨.ok program, k'⟩ → Numbering k k' program) ∧
    parse tokens k =
      ⟨(parse tokens 0).outcome.map (List.map (Stmt.shift k)), k + (parse tokens 0).nextId⟩ :=
  ⟨fun _ _ h => (parse_eq_ok_iff.mp h).numbering, parse_add tokens k 0⟩

/-- Three numbers go to two nodes: the name was numbered before it was assigned to. -/
theorem parse_numbers_assignment :
    parse [⟨.identifier, "a", 1⟩, ⟨.symbol .equal, "=", 1⟩, ⟨.identifier, "b", 1⟩,
        ⟨.symbol .semicolon, ";", 1⟩] 3 =
      ⟨.ok [.expression (.assign 5 ⟨.identifier, "a", 1⟩ (.var 4 ⟨.identifier, "b", 1⟩))], 6⟩ ∧
    Numbering 3 6
      [.expression (.assign 5 ⟨.identifier, "a", 1⟩ (.var 4 ⟨.identifier, "b", 1⟩))] := by
  have hparse : parse [⟨.identifier, "a", 1⟩, ⟨.symbol .equal, "=", 1⟩, ⟨.identifier, "b", 1⟩,
        ⟨.symbol .semicolon, ";", 1⟩] 3 =
      ⟨.ok [.expression (.assign 5 ⟨.identifier, "a", 1⟩ (.var 4 ⟨.identifier, "b", 1⟩))], 6⟩ := rfl
  exact ⟨hparse, (parse_numbers_strictly _ 3).1 _ _ hparse⟩

end GermanLox
