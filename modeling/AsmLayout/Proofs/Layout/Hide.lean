import AsmLayout.Proofs.Layout.Frame

/-!
# Hiding a label

`Pass.hide` takes one label out of the table of a pass. Records that have nothing to do with the
label are read the same with and without it. Main statements: `Pass.foldl_forward_hide` and
`Pass.foldl_retryRecord_hide`.
-/

namespace AsmLayout

/-- Neither the label of the record nor a name in its operand stands for the key. -/
structure Record.Avoids (r : Record) (t : SymbolTable) (context : String) (key : String × String) :
    Prop where
  label : ∀ l ∈ r.label, t.keyOf context l ≠ key
  references : ∀ name ∈ r.references, t.target context name ≠ key

theorem Record.within_ne_iff {r : Record} {t : SymbolTable} {context : String}
    {key : String × String} : r.Within t context (· != key) ↔ r.Avoids t context key := by
  constructor
  · exact fun h => ⟨fun l hl => bne_iff_ne.1 (h.label l hl),
      fun name hn => bne_iff_ne.1 (h.references name hn)⟩
  · exact fun h => ⟨fun l hl => bne_iff_ne.2 (h.label l hl),
      fun name hn => bne_iff_ne.2 (h.references name hn)⟩

theorem Record.Avoids.congr {r : Record} {t t' : SymbolTable} {context : String}
    {key : String × String} (h : r.Avoids t context key) (ht : t'.foldCase = t.foldCase) :
    r.Avoids t' context key :=
  Record.within_ne_iff.1 ((Record.within_ne_iff.2 h).congr ht)

namespace Pass

variable {p : Pass} {key : String × String} {equs : List Deferred}

/-- The pass without a label, and with other `EQU` records set aside. -/
def hide (p : Pass) (key : String × String) (equs : List Deferred) : Pass :=
  { p with table := p.table.erase key, deferredEqu := equs }

theorem hide_eq_view (p : Pass) (key : String × String) (equs : List Deferred) :
    p.hide key equs = p.view (· != key) ⟨equs, p.log.storage, p.log.diagnostics⟩ := rfl

/-- Records that have nothing to do with the hidden label are read as they are without hiding. -/
theorem foldl_forward_hide (rs : List Record)
    (h : ∀ r ∈ rs, r.Avoids p.table p.context key) :
    ∃ ds, (rs.foldl forward p).deferredEqu = p.deferredEqu ++ ds ∧
      ∀ equs, rs.foldl forward (p.hide key equs) =
        (rs.foldl forward p).hide key (equs ++ ds) := by
  have hlog := log_foldl_forward p rs
  refine ⟨(Log.concat (p.readings rs)).equs, congrArg Log.equs hlog, fun equs => ?_⟩
  rw [hide_eq_view, foldl_forward_view rs _ fun r hr => Record.within_ne_iff.2 (h r hr),
    hide_eq_view, hlog]
  rfl

theorem foldl_retryRecord_hide {ds : List Deferred}
    (h : ∀ d ∈ ds, d.record.Avoids p.table p.context key) :
    ds.foldl retryRecord (p.hide key equs) = (ds.foldl retryRecord p).hide key equs := by
  rw [hide_eq_view, foldl_retryRecord_view ds _ fun d hd => Record.within_ne_iff.2 (h d hd),
    hide_eq_view, log_foldl_retryRecord]
  rfl

end Pass
end AsmLayout
