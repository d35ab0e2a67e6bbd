import AsmLayout.Layout
import AsmLayout.Layout.Pass

/-!
# Sessions

A session resolves contexts one after another into one symbol table, so that a context may refer to
labels of those before it. Every context is resolved once: asking for it again gives the layout that
is already there.
-/

namespace AsmLayout

/-- The state of a session. -/
structure Session where
  registers : RegisterTable
  table : SymbolTable
  /-- The diagnostics of all contexts resolved so far. -/
  diagnostics : List Diagnostic
  /-- The layouts of the resolved contexts under their normalized names. -/
  cache : List (String × Layout)
  /-- The normalized names of the resolved contexts, in the order of their resolution. -/
  order : List String

namespace Session

def start (registers : RegisterTable) (foldCase : Bool) : Session :=
  ⟨registers, .empty foldCase, [], [], []⟩

/-- The layouts of the resolved contexts, in the order of their resolution. -/
def layouts (s : Session) : List Layout := s.order.filterMap fun key => s.cache.lookup key

/-- The layout of a resolved context. -/
def layout? (s : Session) (context : String) : Option Layout :=
  s.cache.lookup (s.table.normalize context)

/-- The pass that reads the records of a context from its beginning to its end. -/
def pass (s : Session) (context : String) (records : List Record) : Pass :=
  (Pass.start s.registers s.table context).run records

/-- The layout of a context, resolved from its records if that has not been done before. -/
def resolve (s : Session) (context : String) (records : List Record) : Layout × Session :=
  let key := s.table.normalize context
  match s.cache.lookup key with
  | some layout => (layout, s)
  | none =>
    let p := s.pass key records
    let layout : Layout :=
      ⟨key, p.table.entriesIn key, p.diagnostics, p.highWater, p.table.foldCase⟩
    (layout, { s with
      table := p.table
      diagnostics := s.diagnostics ++ p.diagnostics
      order := s.order ++ [key]
      cache := (key, layout) :: s.cache })

/-- What an operand in `context` may look up. -/
def lookups (s : Session) (context : String) (counter : Int64) : Lookups :=
  ⟨counter, s.table.symbolsFrom context, some s.registers.find?⟩

/-- The value of an operand as seen from inside `context`. -/
def evaluate (s : Session) (context operand : String) (counter : Int64) :
    Except EvalError Operand :=
  Expr.evaluate (s.lookups context counter) operand

/-- The tokens of an operand. -/
def tokenize (s : Session) (operand : String) : Except TokenError (List Token) :=
  Token.scan s.registers.find? operand

/-- The number that tokens stand for as seen from inside `context`. -/
def evaluateTokens (s : Session) (context : String) (tokens : List Token) (counter : Int64) :
    Except EvalError Int64 :=
  Expr.evaluateTokens (s.lookups context counter) tokens

end Session
end AsmLayout
