import GermanLox.Evaluator
import GermanLox.Scope.Resolver
import GermanLox.Stmt.Parser

/-!
# Sessions

Sources run one after another on one machine. A source that is wrong as a text is not run and only
uses up expression numbers; one that fails at run time keeps what it has done.
-/

namespace GermanLox

structure Session where
  machine : Machine
  nextId : ExprId

/-- How the run of a source ends. -/
inductive Verdict where
  | completed
  | rejected (diagnostics : List Diagnostic)
  | failed (fault : Fault)
  | outOfFuel
deriving DecidableEq

namespace Verdict

/-- What a program that ran this way hands to its caller. -/
def exitCode : Verdict → Nat
  | completed => 0
  | rejected _ => 65
  | failed _ => 70
  | outOfFuel => 0

/-- A short account of what went wrong. -/
def summary : Verdict → String
  | completed => ""
  | rejected diagnostics => diagnostics.length.repr ++ " statische(r) Fehler"
  | failed fault => fault.report
  | outOfFuel => ""

end Verdict

/-- What a run prints and how it ends. -/
structure Report where
  output : String
  verdict : Verdict
deriving DecidableEq

namespace Session

def start : Session :=
  ⟨.initial, 0⟩

/-- The program of a source with its distances, or all that is wrong with it: first its
characters, then its grammar; names are looked at only if there is nothing else. -/
def compile (source : String) (firstId : ExprId) :
    Except (List Diagnostic) (List Stmt × Distances) × ExprId :=
  let items := scan source
  let lexical := items.filterMap Item.diagnostic?
  let parsed := parse (items.filterMap Item.token?) firstId
  match parsed.outcome with
  | .error syntactic => (.error (lexical ++ syntactic), parsed.nextId)
  | .ok program =>
    if lexical.isEmpty then
      match resolve program with
      | .error scoping => (.error scoping, parsed.nextId)
      | .ok distances => (.ok (program, distances), parsed.nextId)
    else
      (.error lexical, parsed.nextId)

/-- Runs a source. -/
def run (host : Host) (fuel : Nat) (source : String) (s : Session) : Report × Session :=
  match compile source s.nextId with
  | (.error diagnostics, nextId) => (⟨"", .rejected diagnostics⟩, { s with nextId })
  | (.ok (program, distances), nextId) =>
    let start := { s.machine with output := "" }
    match interpret host fuel distances program start with
    | .ok () machine => (⟨machine.output, .completed⟩, ⟨machine, nextId⟩)
    | .error (.fault f) machine => (⟨machine.output, .failed f⟩, ⟨machine, nextId⟩)
    | .error .outOfFuel machine => (⟨machine.output, .outOfFuel⟩, ⟨machine, nextId⟩)

end Session
end GermanLox
