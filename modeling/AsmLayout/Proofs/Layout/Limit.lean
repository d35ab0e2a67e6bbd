import AsmLayout.Proofs.Layout.Counter

/-!
# Storage at the limit of the counter

Three operations may leave the range of a word when storage is placed: the alignment, the product of
duplication and length, and the sum of both. They fail together exactly where the storage would end
past the largest word (`StorageOperand.area_of_le`, `StorageOperand.area_of_lt`). Main statement:
`Pass.placement_exact` (such storage leaves a diagnostic and nothing else; all other storage is
placed where it belongs).
-/

namespace AsmLayout

variable {op : StorageOperand} {counter : Int64} {start : Int} {area : Area}

/-- From `counter` on, `start` is the first boundary of the type, over the unbounded integers. -/
def StorageOperand.StartsAt (op : StorageOperand) (counter start : Int) : Prop :=
  IsLeast {n : Int | (op.type.byteSize.toNat : Int) ∣ n ∧ counter ≤ n} start

/-- The offset just past storage that begins at `start`, over the unbounded integers. -/
def StorageOperand.stopFrom (op : StorageOperand) (start : Int) : Int :=
  start + op.duplication.toNat * op.length.toNat

theorem StorageOperand.le_stopFrom : start ≤ op.stopFrom start := by
  have h : (0 : Int) ≤ op.duplication.toNat * op.length.toNat :=
    Int.mul_nonneg (Int.natCast_nonneg _) (Int.natCast_nonneg _)
  unfold stopFrom
  omega

/-- The distance to the next multiple is the remainder of the opposite. -/
theorem add_emod_of_isLeast {size value : Int} (hsize : 0 < size)
    (h : IsLeast {n : Int | size ∣ n ∧ value ≤ n} start) : value + -value % size = start := by
  obtain ⟨⟨hdvd, hle⟩, hleast⟩ := h
  have hnonneg := Int.emod_nonneg (-value) (Int.ne_of_gt hsize)
  have hlt := Int.emod_lt_of_pos (-value) hsize
  have hmultiple : size ∣ value + -value % size := by
    have hdiv := Int.mul_ediv_add_emod (-value) size
    exact ⟨-(-value / size), by rw [Int.mul_neg]; omega⟩
  have hstart : start ≤ value + -value % size := hleast ⟨hmultiple, by omega⟩
  -- two multiples that are less than `size` apart
  have hzero : (value + -value % size - start) % size = 0 :=
    Int.emod_eq_zero_of_dvd (Int.dvd_sub hmultiple hdvd)
  rw [Int.emod_eq_of_lt (by omega) (by omega)] at hzero
  omega

theorem alignUp_of_startsAt (h : op.StartsAt counter.toInt start) :
    alignUp counter op.type.byteSize = int64? start := by
  have hsize := op.type.byteSize_pos
  have hne : op.type.byteSize ≠ 0 := by
    intro hzero
    rw [hzero] at hsize
    exact absurd hsize (by decide)
  rw [alignUp, if_neg hne, add_emod_of_isLeast (by omega) h]

theorem int64?_of_le {n : Int} (hnonneg : 0 ≤ n) (hle : n ≤ 9223372036854775807) :
    ∃ w, int64? n = some w ∧ w.toInt = n := by
  have hsome : int64? n = some (Int64.ofInt n) := if_pos ⟨by omega, hle⟩
  exact ⟨_, hsome, int64?_eq_some_iff.1 hsome⟩

namespace StorageOperand

/-- Storage that ends within the range of a word has an area. -/
theorem area_of_le (hcounter : 0 ≤ counter.toInt) (hstart : op.StartsAt counter.toInt start)
    (hle : op.stopFrom start ≤ 9223372036854775807) :
    ∃ area, op.area counter = .ok area ∧ area.displacement.toInt = start ∧
      area.stop.toInt = op.stopFrom start := by
  have hstop : start ≤ op.stopFrom start := op.le_stopFrom
  have hnonneg : 0 ≤ start := Int.le_trans hcounter hstart.1.2
  obtain ⟨displacement, hdisplacement, hvalue⟩ := int64?_of_le hnonneg (by omega)
  obtain ⟨length, hlength, hproduct⟩ := int64?_of_le
    (n := (op.duplication.toNat * op.length.toNat : Nat)) (by omega)
    (by unfold stopFrom at hle; push_cast; omega)
  obtain ⟨stop, hsum, hend⟩ := int64?_of_le (n := op.stopFrom start) (by omega) hle
  refine ⟨⟨displacement, stop⟩, ?_, hvalue, hend⟩
  have htotal : (op.totalLength?.bind fun n => int64? (displacement.toInt + n.toInt)) =
      some stop := by
    rw [totalLength?, hlength, Option.bind_some, hvalue, hproduct, ← hsum, stopFrom,
      Int.natCast_mul]
  simp only [area, alignUp_of_startsAt hstart, hdisplacement, htotal]

/-- Storage that ends past the largest word has none. -/
theorem area_of_lt (hstart : op.StartsAt counter.toInt start)
    (hlt : 9223372036854775807 < op.stopFrom start) :
    ∃ failure, op.area counter = .error (.evaluationFailed failure) := by
  cases harea : op.area counter with
  | ok area =>
    -- an area lies where it should, and no word is that large
    exfalso
    have hdisplacement := Pass.area_eq_ok harea
    rw [alignUp_of_startsAt hstart, int64?_eq_some_iff] at hdisplacement
    have hstop := area_stop harea
    have hmax := area.stop.toInt_lt
    unfold stopFrom at hlt
    omega
  | error e =>
    unfold StorageOperand.area at harea
    split at harea
    · cases harea; exact ⟨_, rfl⟩
    · split at harea <;> cases harea
      exact ⟨_, rfl⟩

end StorageOperand

/-- The table `t'` is the table `t`, with the label, if there is one, at the given values. -/
structure SymbolTable.Gains (t : SymbolTable) (context : String) (label : Option String)
    (displacement : Int64) (length : UInt32) (t' : SymbolTable) : Prop where
  unlabelled : label = none → t' = t
  value : ∀ l ∈ label, t'.get? (t.keyOf context l) = some (t.made context l displacement length)
  others : ∀ l ∈ label, t'.erase (t.keyOf context l) = t.erase (t.keyOf context l)

namespace Pass

variable {p : Pass} {r : Record} {e : EvalError}

theorem define_gains (p : Pass) (label : Option String) (displacement : Int64) (length : UInt32) :
    p.table.Gains p.context label displacement length
      (p.define label displacement length).table := by
  constructor
  · rintro rfl
    rfl
  · rintro l hl
    obtain rfl := Option.mem_def.1 hl
    exact (SymbolTable.get?_define _).trans (if_pos rfl)
  · rintro l hl
    obtain rfl := Option.mem_def.1 hl
    exact SymbolTable.erase_define_self

theorem effect_of_area (hdir : r.directive = .ds ∨ r.directive = .dc)
    (hop : StorageOperand.decode (p.lookups counter) r.operand = .ok op)
    (harea : op.area counter = .ok area) :
    p.effect r counter = .ok (.place area op.length) := by
  rw [effect_of_storage hdir, storage, hop]
  simp only [Except.mapError, bind, Except.bind, harea]

theorem effect_of_area_error (hdir : r.directive = .ds ∨ r.directive = .dc)
    (hop : StorageOperand.decode (p.lookups counter) r.operand = .ok op)
    (harea : op.area counter = .error e) : p.effect r counter = .error (.evaluation e) := by
  rw [effect_of_storage hdir, storage, hop]
  simp only [Except.mapError, bind, Except.bind, harea]

theorem reading_of_storage (hdir : r.directive = .ds ∨ r.directive = .dc) :
    p.markOrigin r = p ∧ p.reading r = p.effect r p.counter := by
  have horg : r.directive ≠ .org := by rcases hdir with h | h <;> rw [h] <;> decide
  rw [reading, markOrigin_of_ne horg]
  exact ⟨rfl, rfl⟩

/-- Storage with an area is placed, when it is read for the first time and later. -/
theorem places_of_area (hdir : r.directive = .ds ∨ r.directive = .dc)
    (hop : StorageOperand.decode (p.lookups counter) r.operand = .ok op)
    (harea : op.area counter = .ok area) :
    p.retryRecord ⟨r, counter⟩ = p.define r.label area.displacement op.length ∧
      (p.counter = counter →
        p.forward r = (p.define r.label area.displacement op.length).moveTo area.stop) := by
  have heffect := effect_of_area hdir hop harea
  constructor
  · rw [retryRecord, heffect]
    rfl
  · rintro rfl
    obtain ⟨hmark, hreading⟩ := reading_of_storage (p := p) hdir
    rw [forward_of_ok (hreading.trans heffect), hmark]
    rfl

/-- Storage without an area leaves a diagnostic, and nothing else. -/
theorem reports_of_area_error {failure : Failure} (hdir : r.directive = .ds ∨ r.directive = .dc)
    (hop : StorageOperand.decode (p.lookups counter) r.operand = .ok op)
    (harea : op.area counter = .error (.evaluationFailed failure)) :
    p.retryRecord ⟨r, counter⟩ = p.report r (.evaluation (.evaluationFailed failure)) ∧
      (p.counter = counter →
        p.forward r = p.report r (.evaluation (.evaluationFailed failure))) := by
  have heffect := effect_of_area_error hdir hop harea
  constructor
  · rw [retryRecord, heffect]
  · rintro rfl
    obtain ⟨hmark, hreading⟩ := reading_of_storage (p := p) hdir
    rw [forward_of_error (hreading.trans heffect) ?_, hmark]
    rintro ⟨e, he, hf, -⟩
    rw [hreading.trans heffect] at he
    cases he
    cases hf

variable {rs : List Record} {v : Visit}

/-- No record ends at a negative counter, with its first visit or with its second. -/
theorem Bounded.counter_of_mem_conclusions (h : p.Bounded) (hv : v ∈ p.conclusions rs) :
    0 ≤ v.counter.toInt := by
  have hvisits : ∀ u ∈ p.visits rs, 0 ≤ u.counter.toInt := by
    intro u hu
    obtain ⟨pre, post, -, hvisit⟩ := mem_visits hu
    rw [hvisit]
    exact (h.foldl_forward pre).nonneg
  rcases List.mem_append.1 hv with hv | hv
  · exact hvisits v (List.mem_filter.1 hv).1
  · obtain ⟨u, hu, -, ds, rfl⟩ := mem_later hv
    exact hvisits u hu

/-- A record ends with its first reading, at the counter as it stands, or with its second. -/
theorem after_of_mem_conclusions (hv : v ∈ p.conclusions rs) :
    v.after = v.before.retryRecord ⟨v.record, v.counter⟩ ∨
      v.before.counter = v.counter ∧ v.after = v.before.forward v.record := by
  rcases List.mem_append.1 hv with hv | hv
  · obtain ⟨pre, post, -, hvisit⟩ := mem_visits (List.mem_filter.1 hv).1
    rw [hvisit]
    exact .inr ⟨rfl, rfl⟩
  · obtain ⟨u, -, -, ds, rfl⟩ := mem_later hv
    exact .inl rfl

/-- Storage at a counter that is not negative is placed at the first boundary of its type exactly if
it ends within the range of a word: its label is given that offset and the length of one element,
and nothing else in the table changes. Else it is reported. So in a pass over a context, storage
that ends past the largest word leaves the counter, the high-water mark and the table as they
are. -/
theorem placement_exact :
    (∀ (op : StorageOperand) (counter : Int64) (start : Int), 0 ≤ counter.toInt →
      op.StartsAt counter.toInt start →
      (op.stopFrom start ≤ 9223372036854775807 →
        ∃ area, op.area counter = .ok area ∧ area.displacement.toInt = start ∧
          area.stop.toInt = op.stopFrom start ∧
          ∀ (p : Pass) (r : Record), r.directive = .ds ∨ r.directive = .dc →
            StorageOperand.decode (p.lookups counter) r.operand = .ok op →
            let q := p.define r.label area.displacement op.length
            p.retryRecord ⟨r, counter⟩ = q ∧
              (p.counter = counter → p.forward r = q.moveTo area.stop) ∧
              p.table.Gains p.context r.label area.displacement op.length q.table) ∧
      (9223372036854775807 < op.stopFrom start →
        ∃ failure, op.area counter = .error (.evaluationFailed failure) ∧
          ∀ (p : Pass) (r : Record), r.directive = .ds ∨ r.directive = .dc →
            StorageOperand.decode (p.lookups counter) r.operand = .ok op →
            let q := p.report r (.evaluation (.evaluationFailed failure))
            p.retryRecord ⟨r, counter⟩ = q ∧ (p.counter = counter → p.forward r = q))) ∧
    -- in a pass over a context
    ∀ (registers : RegisterTable) (table : SymbolTable) (context : String) (records : List Record),
      ∀ v ∈ (Pass.start registers table context).conclusions records,
        v.record.directive = .ds ∨ v.record.directive = .dc →
        0 ≤ v.counter.toInt ∧ ∀ (op : StorageOperand) (start : Int),
          StorageOperand.decode (v.before.lookups v.counter) v.record.operand = .ok op →
          op.StartsAt v.counter.toInt start → 9223372036854775807 < op.stopFrom start →
          v.after.counter = v.before.counter ∧ v.after.highWater = v.before.highWater ∧
            v.after.table = v.before.table := by
  constructor
  · intro op counter start hcounter hstart
    refine ⟨fun hle => ?_, fun hlt => ?_⟩
    · obtain ⟨area, harea, hdisplacement, hstop⟩ := StorageOperand.area_of_le hcounter hstart hle
      refine ⟨area, harea, hdisplacement, hstop, fun p r hdir hop => ?_⟩
      obtain ⟨hretry, hforward⟩ := places_of_area hdir hop harea
      exact ⟨hretry, hforward, p.define_gains r.label area.displacement op.length⟩
    · obtain ⟨failure, harea⟩ := StorageOperand.area_of_lt hstart hlt
      exact ⟨failure, harea, fun p r hdir hop => reports_of_area_error hdir hop harea⟩
  · intro registers table context records v hv hdir
    have hcounter := (start_bounded registers table context).counter_of_mem_conclusions hv
    refine ⟨hcounter, fun op start hop hstart hlt => ?_⟩
    obtain ⟨failure, harea⟩ := StorageOperand.area_of_lt hstart hlt
    obtain ⟨hretry, hforward⟩ := reports_of_area_error hdir hop harea
    rcases after_of_mem_conclusions hv with hafter | ⟨hfirst, hafter⟩
    · rw [hafter, hretry]
      exact ⟨rfl, rfl, rfl⟩
    · rw [hafter, hforward hfirst]
      exact ⟨rfl, rfl, rfl⟩

/-- Seven bytes before the limit there is room for three bytes on a boundary of words, but for no
word. -/
theorem placement_exact_words :
    let records : List Record := [⟨none, .org, "9223372036854775801"⟩, ⟨some "A", .ds, "F"⟩]
    let first := Pass.start .standard (.empty true) "REC"
    let p := first.forward ⟨none, .org, "9223372036854775801"⟩
    (∃ area, (⟨1, .f, 3⟩ : StorageOperand).area p.counter = .ok area ∧
      area.displacement.toInt = 9223372036854775804 ∧ area.stop.toInt = 9223372036854775807 ∧
      p.forward ⟨some "A", .ds, "FL3"⟩ =
        (p.define (some "A") area.displacement 3).moveTo area.stop) ∧
    (∃ failure, p.forward ⟨some "A", .ds, "F"⟩ =
      p.report ⟨some "A", .ds, "F"⟩ (.evaluation (.evaluationFailed failure))) ∧
    ∃ v ∈ first.conclusions records, v.record = ⟨some "A", .ds, "F"⟩ ∧
      v.after.counter = v.before.counter ∧ v.after.highWater = v.before.highWater ∧
        v.after.table = v.before.table := by
  intro records first p
  have hcounter : p.counter.toInt = 9223372036854775801 := by decide +kernel
  have hnonneg : 0 ≤ p.counter.toInt := by omega
  have hstart : ∀ length : UInt32,
      (⟨1, .f, length⟩ : StorageOperand).StartsAt p.counter.toInt 9223372036854775804 := by
    intro length
    have hleast : IsLeast {n : Int | (4 : Int) ∣ n ∧ 9223372036854775801 ≤ n}
        9223372036854775804 := by
      refine ⟨⟨by decide, by decide⟩, ?_⟩
      rintro n ⟨hdvd, hle⟩
      omega
    rw [hcounter]
    exact hleast
  have hshort : StorageOperand.decode (p.lookups p.counter) "FL3" = .ok ⟨1, .f, 3⟩ := by
    decide +kernel
  have hword : StorageOperand.decode (p.lookups p.counter) "F" = .ok ⟨1, .f, 4⟩ := by
    decide +kernel
  have hmem : p.visit 1 ⟨some "A", .ds, "F"⟩ ∈ first.conclusions records :=
    List.mem_append_left _ (List.mem_filter.2
      ⟨List.mem_cons_of_mem _ List.mem_cons_self, by decide +kernel⟩)
  obtain ⟨hplaces, hruns⟩ := placement_exact
  refine ⟨?_, ?_, _, hmem, rfl, ?_⟩
  · obtain ⟨area, harea, hdisplacement, hstop, hreads⟩ :=
      (hplaces ⟨1, .f, 3⟩ p.counter _ hnonneg (hstart 3)).1 (by decide)
    exact ⟨area, harea, hdisplacement, hstop,
      (hreads p ⟨some "A", .ds, "FL3"⟩ (.inl rfl) hshort).2.1 rfl⟩
  · obtain ⟨failure, -, hreads⟩ :=
      (hplaces ⟨1, .f, 4⟩ p.counter _ hnonneg (hstart 4)).2 (by decide)
    exact ⟨failure, (hreads p ⟨some "A", .ds, "F"⟩ (.inl rfl) hword).2 rfl⟩
  · exact (hruns _ _ _ records _ hmem (.inl rfl)).2 ⟨1, .f, 4⟩ _ hword (hstart 4) (by decide)

end Pass
end AsmLayout
