import AsmLayout.Diagnostic
import AsmLayout.Layout.Area
import AsmLayout.Record
import AsmLayout.Registers
import AsmLayout.SymbolTable

/-!
# Passes over a context

The records of a context are read once with a location counter that starts at zero
(`Pass.forward`). `EQU`, `DS` and `DC` records whose operands name a label that is not defined yet
are set aside and tried again afterwards, each at the counter it was first seen at: first every
`EQU`, then all storage (`Pass.retry`). A record that fails leaves a diagnostic and nothing else,
but for the label of an `ORG`, which is defined before its operand is read.
-/

namespace AsmLayout

/-- A record set aside, with the counter it was first seen at. -/
structure Deferred where
  record : Record
  counter : Int64
  deriving DecidableEq, Repr

/-- Why a record fails. -/
inductive RecordError
  | evaluation (e : EvalError)
  | decoding (e : DecodeError)
  | negativeOrigin (target : Int64)
  deriving DecidableEq, Repr

namespace RecordError

def kind : RecordError → ErrorKind
  | evaluation e => e.kind
  | decoding e => e.kind
  | negativeOrigin _ => .evaluationFailed

def message : RecordError → String
  | evaluation e => e.message
  | decoding e => e.message
  | negativeOrigin target => s!"ORG target is negative: {target.toInt}"

/-- Whether the record may succeed once more labels are defined. -/
def isForwardReference : RecordError → Bool
  | evaluation e => e.isForwardReference
  | decoding e => e.isForwardReference
  | negativeOrigin _ => false

end RecordError

/-- What a record does once its operand has been read. -/
inductive Effect
  /-- Reserve an area for elements of the given length. -/
  | place (area : Area) (length : UInt32)
  | assign (displacement : Int64) (length : UInt32)
  | move (target : Int64)
  deriving DecidableEq, Repr

namespace Effect

/-- The values that the label of the record gets. -/
def definition? : Effect → Option (Int64 × UInt32)
  | place area length => some (area.displacement, length)
  | assign displacement length => some (displacement, length)
  | move _ => none

/-- Where the location counter moves. -/
def counter? : Effect → Option Int64
  | place area _ => some area.stop
  | assign _ _ => none
  | move target => some target

end Effect

/-- Whether a record with this directive may wait for labels that are not defined yet. -/
def Directive.mayWait : Directive → Bool
  | ds | dc | equ => true
  | org | dsect => false

/-- The state of a context part way through its records. -/
structure Pass where
  context : String
  registers : RegisterTable
  /-- The labels of this and of all earlier contexts. -/
  table : SymbolTable
  counter : Int64
  /-- The highest value the counter has had. -/
  highWater : Int64
  deferredEqu : List Deferred
  deferredStorage : List Deferred
  diagnostics : List Diagnostic

namespace Pass

/-- The start of a context whose name is normalized. -/
def start (registers : RegisterTable) (table : SymbolTable) (context : String) : Pass :=
  ⟨context, registers, table, 0, 0, [], [], []⟩

/-- What an operand may look up when the location counter is `counter`. -/
def lookups (p : Pass) (counter : Int64) : Lookups :=
  ⟨counter, p.table.symbolsFrom p.context, some p.registers.find?⟩

def define (p : Pass) (label : Option String) (displacement : Int64) (length : UInt32) : Pass :=
  match label with
  | some label => { p with table := p.table.define p.context label displacement length }
  | none => p

def moveTo (p : Pass) (counter : Int64) : Pass :=
  { p with counter, highWater := if p.highWater ≤ counter then counter else p.highWater }

def report (p : Pass) (record : Record) (e : RecordError) : Pass :=
  { p with
    diagnostics := p.diagnostics ++ [⟨e.kind, p.context, record.render, e.message⟩] }

/-- The pass with a record set aside, at the end of the queue for its directive. -/
def defer (p : Pass) (record : Record) : Pass :=
  let d : Deferred := ⟨record, p.counter⟩
  if record.directive = .equ then { p with deferredEqu := p.deferredEqu ++ [d] }
  else { p with deferredStorage := p.deferredStorage ++ [d] }

/-! ### Reading a record -/

/-- The storage that an operand reserves at `counter`. -/
def storage (p : Pass) (operand : String) (counter : Int64) : Except RecordError Effect := do
  let op ← (StorageOperand.decode (p.lookups counter) operand).mapError .decoding
  let area ← (op.area counter).mapError .evaluation
  .ok (.place area op.length)

/-- The number that an operand stands for at `counter`. -/
def number (p : Pass) (operand : String) (counter : Int64) : Except RecordError Int64 := do
  let operand ← (Expr.evaluate (p.lookups counter) operand).mapError .evaluation
  match operand.value with
  | .int n => .ok n
  | .text s => .error (.evaluation (.notANumber s))

/-- Where an `ORG` with the given operand moves the counter. Without an operand it is the end of
what is laid out so far. -/
def origin (p : Pass) (operand : String) (counter : Int64) : Except RecordError Int64 :=
  if Text.isBlankText operand then .ok p.highWater
  else do
    let target ← p.number operand counter
    if target < 0 then .error (.negativeOrigin target) else .ok target

/-- The effect of a record that meets the location counter at `counter`. -/
def effect (p : Pass) (record : Record) (counter : Int64) : Except RecordError Effect :=
  match record.directive with
  | .ds | .dc => p.storage record.operand counter
  | .equ => do .ok (.assign (← p.number record.operand counter) 1)
  | .org => do .ok (.move (← p.origin record.operand counter))
  | .dsect => .ok (.assign 0 0)

/-- The pass with the label of a record defined as its effect says. -/
def settle (p : Pass) (record : Record) (effect : Effect) : Pass :=
  match effect.definition? with
  | some (displacement, length) => p.define record.label displacement length
  | none => p

/-- The pass with the counter moved as an effect says. -/
def advance (p : Pass) (effect : Effect) : Pass :=
  match effect.counter? with
  | some counter => p.moveTo counter
  | none => p

/-! ### The two passes -/

/-- The pass with the label of an `ORG` defined at the counter that the record finds. -/
def markOrigin (p : Pass) (record : Record) : Pass :=
  if record.directive = .org then p.define record.label p.counter 1 else p

/-- A record read for the first time. -/
def forward (p : Pass) (record : Record) : Pass :=
  let p := p.markOrigin record
  match p.effect record p.counter with
  | .ok effect => (p.settle record effect).advance effect
  | .error e =>
    if e.isForwardReference && record.directive.mayWait then p.defer record
    else p.report record e

/-- A record that was set aside. The counter stays where it is. -/
def retryRecord (p : Pass) (d : Deferred) : Pass :=
  match p.effect d.record d.counter with
  | .ok effect => p.settle d.record effect
  | .error e => p.report d.record e

/-- Every record that was set aside. -/
def retry (p : Pass) : Pass := (p.deferredEqu ++ p.deferredStorage).foldl retryRecord p

/-- All records of a context. -/
def run (p : Pass) (records : List Record) : Pass := (records.foldl forward p).retry

end Pass
end AsmLayout
