import GermanLox.Source.Fragment

/-!
# Scanning

The items of a source text: its tokens and lexical faults in order, then the end. An item stands
on the line where its text ends.
-/

namespace GermanLox

inductive Item where
  | token (t : Token)
  | fault (line : Nat) (cause : LexicalFault)
deriving DecidableEq

namespace Item

/-- The item of a fragment that ends on a given line, if it is more than a blank or comment. -/
def ofFragment? (line : Nat) (fragment : Fragment) : Option Item :=
  match fragment.kind with
  | .blank => none
  | .comment => none
  | .token kind => some (token ⟨kind, String.ofList fragment.text, line⟩)
  | .fault cause => some (fault line cause)

/-- The items of the fragments that follow on a given line, closed by the end. -/
def place (line : Nat) : List Fragment → List Item
  | [] => [token ⟨.eof, "", line⟩]
  | fragment :: rest =>
    let line := line + fragment.text.count '\n'
    (ofFragment? line fragment).toList ++ place line rest

def token? : Item → Option Token
  | token t => some t
  | fault _ _ => none

end Item

/-- Everything a source text holds, in order. -/
def scan (source : String) : List Item :=
  Item.place 1 (Fragment.split source.toList)

end GermanLox
