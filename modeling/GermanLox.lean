import GermanLox.Main
import GermanLox.Proofs.Cursor.Agreement
import GermanLox.Proofs.Cursor.Bounds
import GermanLox.Proofs.Cursor.Parser
import GermanLox.Proofs.Cursor.Productions
import GermanLox.Proofs.Equality
import GermanLox.Proofs.Grammar.CountingLoop
import GermanLox.Proofs.Grammar.Derivation
import GermanLox.Proofs.Grammar.Ebnf
import GermanLox.Proofs.Grammar.Exact
import GermanLox.Proofs.Grammar.Exchange
import GermanLox.Proofs.Grammar.Kinds
import GermanLox.Proofs.Grammar.LongLists
import GermanLox.Proofs.Grammar.Notes
import GermanLox.Proofs.Grammar.ParseTree
import GermanLox.Proofs.Grammar.Reading
import GermanLox.Proofs.Grammar.Targets
import GermanLox.Proofs.Grammar.Tree
import GermanLox.Proofs.Number.Rounding
import GermanLox.Proofs.Number.Written
import GermanLox.Proofs.Reading.Appended
import GermanLox.Proofs.Reading.Basic
import GermanLox.Proofs.Reading.Contents
import GermanLox.Proofs.Reading.Expressions
import GermanLox.Proofs.Reading.Numbering
import GermanLox.Proofs.Reading.Numbers
import GermanLox.Proofs.Reading.Programs
import GermanLox.Proofs.Reading.Relabelled
import GermanLox.Proofs.Reading.Renumbered
import GermanLox.Proofs.Reading.Shifted
import GermanLox.Proofs.Reading.Soundness
import GermanLox.Proofs.Relabel
import GermanLox.Proofs.Run.Actions
import GermanLox.Proofs.Run.Belonging
import GermanLox.Proofs.Run.Code
import GermanLox.Proofs.Run.Congruence
import GermanLox.Proofs.Run.Continued
import GermanLox.Proofs.Run.Discipline
import GermanLox.Proofs.Run.Foundation
import GermanLox.Proofs.Run.Founded
import GermanLox.Proofs.Run.Objects
import GermanLox.Proofs.Run.Origin
import GermanLox.Proofs.Run.Reach
import GermanLox.Proofs.Run.Roles
import GermanLox.Proofs.Run.Simulation
import GermanLox.Proofs.Run.World
import GermanLox.Proofs.Scanner.Bytes
import GermanLox.Proofs.Scanner.Calls
import GermanLox.Proofs.Scanner.Iterator
import GermanLox.Proofs.Scanner.Lexemes
import GermanLox.Proofs.Scanner.Looking
import GermanLox.Proofs.Scope.Binding
import GermanLox.Proofs.Scope.Declared
import GermanLox.Proofs.Scope.Formed
import GermanLox.Proofs.Scope.InOrder
import GermanLox.Proofs.Scope.Lockstep.Expressions
import GermanLox.Proofs.Scope.Lockstep.Programs
import GermanLox.Proofs.Scope.Lockstep.Statements
import GermanLox.Proofs.Scope.Matching
import GermanLox.Proofs.Scope.Occurrences
import GermanLox.Proofs.Scope.Renamed
import GermanLox.Proofs.Scope.Renumbered
import GermanLox.Proofs.Scope.Respelling
import GermanLox.Proofs.Scope.Reused
import GermanLox.Proofs.Scope.Sites
import GermanLox.Proofs.Scope.Violations
import GermanLox.Proofs.Scope.Walk
import GermanLox.Proofs.Sequencing
import GermanLox.Proofs.Session.Accepted
import GermanLox.Proofs.Session.CountingLoops
import GermanLox.Proofs.Session.History
import GermanLox.Proofs.Session.Initializers
import GermanLox.Proofs.Session.Joined
import GermanLox.Proofs.Session.LostLines
import GermanLox.Proofs.Session.Moved
import GermanLox.Proofs.Session.References
import GermanLox.Proofs.Session.Rejected
import GermanLox.Proofs.Session.Renaming
import GermanLox.Proofs.Session.Sound
import GermanLox.Proofs.Session.Superclasses
import GermanLox.Proofs.Session.Tables
import GermanLox.Proofs.Session.TopLevel
import GermanLox.Proofs.Source.Cutting
import GermanLox.Proofs.Source.Joined
import GermanLox.Proofs.Source.Lexemes
import GermanLox.Proofs.Source.Places
import GermanLox.Proofs.Source.ReadBack
import GermanLox.Proofs.Source.Renaming
import GermanLox.Proofs.Source.Respelled
import GermanLox.Proofs.Source.Spaced
import GermanLox.Proofs.Source.Tiling
import GermanLox.Proofs.Source.Tokens
import GermanLox.Proofs.Store.Walking
