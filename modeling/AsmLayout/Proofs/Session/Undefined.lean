import AsmLayout.Proofs.Layout.Undefined
import AsmLayout.Proofs.Session.History

/-!
# Undefined names are reported honestly

Main statement: `Session.resolve_undefined`. What a context reports as undefined for storage or an
`EQU` was defined neither by the first visits to its records nor by the second visits before the
report.
-/

namespace AsmLayout.Session

variable {s : Session} {context : String}

/-- In a context that is new, an undefined name is reported for storage or an `EQU` at a second
visit only. By then no earlier context, no first visit and no second visit before it has defined the
name; for storage this means that no `EQU` has. Afterwards the name is still undefined, or a later
visit has defined it, to storage or, if the record is an `EQU`, to another `EQU`. -/
theorem resolve_undefined (hnew : s.layout? context = none) (records : List Record) :
    let p := s.firstPass context
    let later := p.laterEqus records ++ p.laterStorage records
    let ended := p.atOnce records ++ later
    let resolved := s.resolve context records
    resolved.1.diagnostics = ended.flatMap Visit.diagnostics ∧
      ∀ v ∈ ended, v.record.directive.mayWait = true → ∀ d ∈ v.diagnostics,
        d.kind = .invalidSymbolKey ∨ d.kind = .invalidLengthKey →
          ∃ e name front back, v.outcome = .error e ∧ e.undefinedName? = some name ∧
            d.message = e.message ∧ later = front ++ v :: back ∧
            let key := s.table.target context name
            -- up to the report
            (s.table.get? key = none ∧ v.before.table.get? key = none ∧
                ∀ u ∈ p.visits records ++ front, ¬ u.Defines key) ∧
              (v.record.directive ≠ .equ → ∀ u ∈ p.laterEqus records, ¬ u.Defines key) ∧
              -- after it
              (resolved.2.table.get? key = none ∨ ∃ w ∈ back, w.Defines key ∧
                (w.record.directive = .ds ∨ w.record.directive = .dc ∨
                  v.record.directive = .equ ∧ w.record.directive = .equ)) := by
  intro p later ended resolved
  refine ⟨?_, fun v hv hmay d hd hkind => ?_⟩
  · have hdiagnostics : resolved.1.diagnostics = (p.run records).diagnostics := by
      show (s.resolve context records).1.diagnostics = _
      rw [resolve_of_new hnew]
    rw [hdiagnostics, Pass.diagnostics_conclusions rfl]
    rfl
  have hconcludes : v.Concludes := Pass.concludes_of_mem_conclusions hv
  have hlater : v ∈ later := by
    rcases List.mem_append.1 hv with hv | hv
    · have hwaits : v.waits = false := by simpa using (List.mem_filter.1 hv).2
      have horg := hconcludes.org_of_undefined hwaits hd hkind
      exact absurd horg (Visit.ne_org_of_mayWait hmay)
    · exact hv
  rw [hconcludes.diagnostics] at hd
  obtain ⟨e, he, rfl⟩ := Visit.mem_complaints hd
  obtain ⟨name, hname⟩ :=
    RecordError.exists_undefinedName (RecordError.isForwardReference_of_kind hkind)
  obtain ⟨front, back, hsplit⟩ := List.append_of_mem hlater
  refine ⟨e, name, front, back, he, hname, rfl, hsplit, ?_⟩
  intro key
  obtain ⟨hbefore, hafter⟩ := Pass.later_undefined rfl hsplit he hname
  have hkey : p.table.target p.context name = key := SymbolTable.target_normalize
  rw [hkey] at hbefore hafter
  refine ⟨hbefore, fun hequ u hu => ?_, ?_⟩
  · obtain ⟨mid, hfront, -⟩ := Pass.later_split_of_ne_equ hsplit hequ
    exact hbefore.2.2 u (by simp [hfront, hu])
  · have htable : resolved.2.table = (p.run records).table := table_resolve hnew
    rw [htable]
    exact hafter.imp_right fun ⟨w, hw, hdefines⟩ =>
      ⟨w, hw, hdefines, Pass.directive_behind hsplit hw⟩

/-- The first of two `EQU` records names the second, which waits as well; a `DS` names what no
record defines. -/
theorem resolve_undefined_chain :
    let s := start .standard true
    let records : List Record := [⟨some "X", .equ, "Y"⟩, ⟨some "Y", .equ, "Z"⟩,
      ⟨none, .ds, "CL(L'GHOST)"⟩, ⟨some "Z", .ds, "F"⟩]
    let p := s.firstPass "REC"
    let later := p.laterEqus records ++ p.laterStorage records
    let resolved := s.resolve "REC" records
    resolved.1.diagnostics.map Diagnostic.message =
        ["undefined symbol: Y", "invalid length modifier: no length attribute for symbol: GHOST"] ∧
      ∀ v ∈ later, v.record.label = some "X" → ∃ front back, later = front ++ v :: back ∧
        (∀ u ∈ p.visits records ++ front, ¬ u.Defines ("REC", "Y")) ∧
        ∃ w ∈ back, w.Defines ("REC", "Y") := by
  intro s records p later resolved
  refine ⟨by decide +kernel, fun v hv hlabel => ?_⟩
  have hnew : s.layout? "REC" = none := rfl
  have hvisit : ∀ v ∈ later, v.record.label = some "X" → v.record.directive.mayWait = true ∧
      v.outcome = .error (.evaluation (.invalidSymbolKey "Y")) ∧
      ∃ d ∈ v.diagnostics, d.kind = .invalidSymbolKey := by decide +kernel
  obtain ⟨hmay, houtcome, d, hd, hkind⟩ := hvisit v hv hlabel
  obtain ⟨-, hhonest⟩ := resolve_undefined hnew records
  obtain ⟨e, name, front, back, he, hname, -, hsplit, ⟨-, -, hbefore⟩, -, hafter⟩ :=
    hhonest v (List.mem_append_right _ hv) hmay d hd (.inl hkind)
  rw [houtcome] at he
  cases he
  cases hname
  have hkey : s.table.target "REC" "Y" = ("REC", "Y") := by decide +kernel
  rw [hkey] at hbefore hafter
  refine ⟨front, back, hsplit, hbefore, ?_⟩
  rcases hafter with hnone | ⟨w, hw, hdefines, -⟩
  · exact absurd hnone (by decide +kernel)
  · exact ⟨w, hw, hdefines⟩

end AsmLayout.Session
