import AsmLayout.Text.Blank
import AsmLayout.Text.Case
import AsmLayout.Text.Quoted
import AsmLayout.Text.Numeral
import AsmLayout.Text.Apostrophe
import AsmLayout.TypeCode
import AsmLayout.Directive
import AsmLayout.Registers
import AsmLayout.Lookups
import AsmLayout.Token.Scan
import AsmLayout.Expr.Reduce
import AsmLayout.Storage
import AsmLayout.Session
import AsmLayout.Json.Read
import AsmLayout.LayoutFile
import AsmLayout.Toml.Read
import AsmLayout.Settings
import AsmLayout.Report
import AsmLayout.Main
import AsmLayout.Proofs.Names
import AsmLayout.Proofs.Text.Letters
import AsmLayout.Proofs.SymbolTable
import AsmLayout.Proofs.Token.Agreement
import AsmLayout.Proofs.Token.Simulation
import AsmLayout.Proofs.Token.Grammar
import AsmLayout.Proofs.Token.Acceptance
import AsmLayout.Proofs.Token.Fault
import AsmLayout.Proofs.Token.Printing
import AsmLayout.Proofs.Expr.Reading
import AsmLayout.Proofs.Expr.Characters
import AsmLayout.Proofs.Expr.EntryPoints
import AsmLayout.Proofs.Expr.Grammar
import AsmLayout.Proofs.Expr.Parser
import AsmLayout.Proofs.Expr.Reduction
import AsmLayout.Proofs.Expr.Formula
import AsmLayout.Proofs.Expr.Splitting
import AsmLayout.Proofs.Expr.Meaning
import AsmLayout.Proofs.Expr.SelfDefining
import AsmLayout.Proofs.Expr.LetterCase
import AsmLayout.Proofs.Storage
import AsmLayout.Proofs.Expr.Brackets
import AsmLayout.Proofs.Expr.LastLiteral
import AsmLayout.Proofs.Expr.Operands
import AsmLayout.Proofs.Expr.Accepted
import AsmLayout.Proofs.Storage.Plain
import AsmLayout.Proofs.Storage.Groups
import AsmLayout.Proofs.Storage.Parenthesized
import AsmLayout.Proofs.Layout.Step
import AsmLayout.Proofs.Layout.Growth
import AsmLayout.Proofs.Layout.Soundness
import AsmLayout.Proofs.Layout.Frame
import AsmLayout.Proofs.Layout.Hide
import AsmLayout.Proofs.Layout.Position
import AsmLayout.Proofs.Layout.Entries
import AsmLayout.Proofs.Layout.Reports
import AsmLayout.Proofs.Session.History
import AsmLayout.Proofs.Session.Operations
import AsmLayout.Proofs.Session.Soundness
import AsmLayout.Proofs.Session.Position
import AsmLayout.Proofs.Session.Invariant
import AsmLayout.Proofs.Session.AppendOnly
import AsmLayout.Proofs.Session.Independence
import AsmLayout.Proofs.Session.Omission
import AsmLayout.Proofs.Layout.Visits
import AsmLayout.Proofs.Layout.Conclusions
import AsmLayout.Proofs.Layout.Placement
import AsmLayout.Proofs.Layout.Counter
import AsmLayout.Proofs.Layout.Limit
import AsmLayout.Proofs.Session.Account
import AsmLayout.Proofs.Session.Size
import AsmLayout.Proofs.Layout.LetterCase
import AsmLayout.Proofs.Session.LetterCase
import AsmLayout.Proofs.LayoutFile.Accepted
import AsmLayout.Proofs.Session.Contexts
import AsmLayout.Proofs.LayoutFile.Stopping
import AsmLayout.Proofs.LayoutFile.Naming
import AsmLayout.Proofs.LayoutFile.Report
import AsmLayout.Proofs.Session.Deferral
import AsmLayout.Proofs.Layout.Undefined
import AsmLayout.Proofs.Session.Undefined
import AsmLayout.Proofs.Json.RoundTrip
import AsmLayout.Proofs.LayoutFile.RoundTrip
import AsmLayout.Proofs.Session.Labels
import AsmLayout.Proofs.ForwardReference
import AsmLayout.Proofs.SymbolTable.Index
import AsmLayout.Proofs.SymbolTable.Definitions
import AsmLayout.Proofs.Token.Placement
import AsmLayout.Proofs.Storage.Matching
import AsmLayout.Proofs.Toml.Keys
import AsmLayout.Proofs.Registers
