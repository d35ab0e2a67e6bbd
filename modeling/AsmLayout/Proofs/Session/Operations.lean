import AsmLayout.Proofs.Session.History
import AsmLayout.Settings

/-!
# Operations on a session

`Operation` lists what a session can be asked to do. Evaluating and tokenizing only look; everything
else is a series of resolutions. Main statement: `Session.after_preserves` (what resolutions
preserve, all operations preserve).
-/

namespace AsmLayout

/-- What a session can be asked to do. -/
inductive Operation
  | resolve (context : String) (records : List Record)
  | resolveAll (file : LayoutFile)
  | resolveThrough (file : LayoutFile) (name : String)
  | evaluate (context operand : String) (counter : Int64)
  | tokenize (operand : String)
  | evaluateTokens (context : String) (tokens : List Token) (counter : Int64)

namespace Session

variable {s : Session} {P : Session → Prop}

/-- The session that an operation leaves. -/
def perform (s : Session) : Operation → Session
  | .resolve context records => (s.resolve context records).2
  | .resolveAll file => s.resolveAll file
  | .resolveThrough file name => (s.resolveThrough file name).2
  | .evaluate _ _ _ | .tokenize _ | .evaluateTokens _ _ _ => s

/-- The session after some operations, one after another. -/
def after (s : Session) (operations : List Operation) : Session := operations.foldl perform s

theorem resolveContexts_preserves (contexts : List ContextSource) (h : P s)
    (hstep : ∀ s context records, P s → P (s.resolve context records).2) :
    P (s.resolveContexts contexts) := by
  induction contexts generalizing s with
  | nil => exact h
  | cons c contexts ih => exact ih (hstep s c.name c.records h)

theorem perform_preserves (operation : Operation) (h : P s)
    (hstep : ∀ s context records, P s → P (s.resolve context records).2) :
    P (s.perform operation) := by
  cases operation with
  | resolve context records => exact hstep s context records h
  | resolveAll file => exact resolveContexts_preserves file.contexts h hstep
  | resolveThrough file name =>
    show P (s.resolveThrough file name).2
    unfold resolveThrough
    split
    · exact resolveContexts_preserves _ h hstep
    · exact resolveContexts_preserves file.contexts h hstep
  | evaluate context operand counter => exact h
  | tokenize operand => exact h
  | evaluateTokens context tokens counter => exact h

/-- What every resolution preserves, every series of operations preserves. -/
theorem after_preserves (operations : List Operation) (h : P s)
    (hstep : ∀ s context records, P s → P (s.resolve context records).2) :
    P (s.after operations) := by
  induction operations generalizing s with
  | nil => exact h
  | cons operation operations ih => exact ih (perform_preserves operation h hstep)

theorem Reachable.after (h : s.Reachable) (operations : List Operation) :
    (s.after operations).Reachable :=
  after_preserves operations h fun _ context records hs => hs.resolve context records

/-- The sessions go by the same registers and spell names alike. -/
structure SameSettings (s s' : Session) : Prop where
  registers : s'.registers = s.registers
  foldCase : s'.table.foldCase = s.table.foldCase

theorem SameSettings.refl (s : Session) : s.SameSettings s := ⟨rfl, rfl⟩

theorem SameSettings.trans {s' s'' : Session} (h : s.SameSettings s') (h' : s'.SameSettings s'') :
    s.SameSettings s'' :=
  ⟨h'.registers.trans h.registers, h'.foldCase.trans h.foldCase⟩

theorem resolve_sameSettings (s : Session) (context : String) (records : List Record) :
    s.SameSettings (s.resolve context records).2 := by
  cases hc : s.layout? context with
  | some layout => rw [resolve_of_cached hc]; exact .refl s
  | none =>
    rw [resolve_of_new hc]
    exact ⟨rfl, (s.firstPass_sameOutside context records).foldCase⟩

theorem after_sameSettings (s : Session) (operations : List Operation) :
    s.SameSettings (s.after operations) :=
  after_preserves operations (.refl s) fun s' context records h =>
    h.trans (resolve_sameSettings s' context records)

end Session
end AsmLayout
