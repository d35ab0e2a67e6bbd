import AsmLayout.Proofs.Expr.Characters
import AsmLayout.Proofs.LayoutFile.Stopping
import AsmLayout.Proofs.Layout.LetterCase

/-!
# The names of contexts in files and in sessions

A file finds a context by its name up to the case of ASCII letters, a session by the normalized name:
with all letters in upper case if case is folded, as it is spelled if not. Main statement:
`Session.resolveThrough_finds` (what each of them finds, and where they agree).
-/

namespace AsmLayout

namespace Text

variable {s t : String}

/-- No character of the text but ASCII letters has an upper-case form of its own. -/
def PlainCased (s : String) : Prop := ∀ c ∈ s.toList, upperChar c = [c.toUpper]

theorem plainCased_of_ascii (h : s.toList.all (·.toNat < 0x80) = true) : PlainCased s :=
  fun c hc => if_pos (of_decide_eq_true (List.all_eq_true.1 h c hc))

theorem PlainCased.upper_trim (h : PlainCased s) : upper (trim s) = upperAscii (trim s) := by
  rw [upper, upperAscii, trim, String.toList_ofList,
    List.flatMap_congr fun c hc => h c (strip_subset _ hc), List.map_eq_flatMap]

end Text

namespace ContextSource

variable {c : ContextSource} {name : String}

theorem isNamed_iff :
    c.isNamed name = true ↔ Text.upperAscii (Text.trim c.name) = Text.upperAscii (Text.trim name) :=
  beq_iff_eq

/-- A context that goes by a name has the same normalized name, if case is folded. -/
theorem normalizeName_of_isNamed (h : c.isNamed name = true) :
    normalizeName true c.name = normalizeName true name := by
  show Text.upper (Text.trim c.name) = Text.upper (Text.trim name)
  rw [← Text.upper_upperAscii, isNamed_iff.1 h, Text.upper_upperAscii]

theorem isNamed_of_normalizeName_false (h : normalizeName false c.name = normalizeName false name) :
    c.isNamed name = true := by
  have htrim : Text.trim c.name = Text.trim name := h
  rw [isNamed_iff, htrim]

theorem isNamed_of_normalizeName_true (hc : Text.PlainCased c.name) (hname : Text.PlainCased name)
    (h : normalizeName true c.name = normalizeName true name) : c.isNamed name = true := by
  have hupper : Text.upper (Text.trim c.name) = Text.upper (Text.trim name) := h
  rw [isNamed_iff, ← hc.upper_trim, ← hname.upper_trim, hupper]

end ContextSource

/-- No two spellings of `name` or of a context are told apart in one way and not in the other: where
case is folded, the names hold no letters with case but ASCII letters, and where it is not, a context
that goes by `name` is spelled so. -/
def LayoutFile.SpelledAlike (file : LayoutFile) (foldCase : Bool) (name : String) : Prop :=
  if foldCase then Text.PlainCased name ∧ ∀ c ∈ file.contexts, Text.PlainCased c.name
  else ∀ c ∈ file.contexts, c.isNamed name = true → Text.trim c.name = Text.trim name

theorem LayoutFile.SpelledAlike.isNamed_iff {file : LayoutFile} {foldCase : Bool} {name : String}
    (h : file.SpelledAlike foldCase name) {c : ContextSource} (hc : c ∈ file.contexts) :
    c.isNamed name = true ↔ normalizeName foldCase c.name = normalizeName foldCase name := by
  cases foldCase with
  | true =>
    exact ⟨ContextSource.normalizeName_of_isNamed,
      ContextSource.isNamed_of_normalizeName_true (h.2 c hc) h.1⟩
  | false => exact ⟨h c hc, ContextSource.isNamed_of_normalizeName_false⟩

namespace Session

variable {s : Session} {file : LayoutFile} {text name : String} {c : ContextSource}
  {contexts : List ContextSource}

theorem resolveThrough_fst_iff : (s.resolveThrough file name).1 = true ↔
    ∃ c ∈ file.contexts, c.isNamed name = true := by
  rw [← List.any_eq_true, ← List.findIdx?_isSome]
  unfold resolveThrough
  cases file.contexts.findIdx? (·.isNamed name) <;> simp

/-- After some contexts a session that had none finds the names of these contexts. -/
theorem layout?_fresh_iff (settings : Settings) (contexts : List ContextSource) (name : String) :
    (∃ layout, (settings.session.resolveContexts contexts).layout? name = some layout) ↔
      ∃ c ∈ contexts,
        normalizeName settings.foldCase c.name = normalizeName settings.foldCase name := by
  constructor
  · rintro ⟨layout, hlayout⟩
    by_contra hnone
    have hne : ∀ c ∈ contexts, normalizeName settings.foldCase c.name ≠
        normalizeName settings.foldCase name := fun c hc heq => hnone ⟨c, hc, heq⟩
    rw [layout?_resolveContexts_of_ne (s := settings.session) hne] at hlayout
    cases hlayout
  · rintro ⟨c, hc, heq⟩
    obtain ⟨pre, post, rfl⟩ := List.append_of_mem hc
    exact ⟨_, layout?_resolveContexts_split _ pre post heq⟩

/-- The context that the file finds under the name has its layout among those of the whole file.
Stopped there or not, the session has this layout under the name, and from inside the name it
evaluates as from inside the context. -/
def Shows (settings : Settings) (file : LayoutFile) (name : String) : Prop :=
  let s := (settings.session.resolveThrough file name).2
  let whole := settings.session.resolveAll file
  ∃ (c : ContextSource) (k : Nat) (layout : Layout), file.context? name = some c ∧
    file.contexts[k]? = some c ∧ whole.layouts[k]? = some layout ∧
    s.layout? name = some layout ∧ whole.layout? name = some layout ∧
    ∀ operand counter, s.evaluate name operand counter = s.evaluate c.name operand counter

theorem evaluate_congr_context (h : s.table.normalize name = s.table.normalize c.name)
    (operand : String) (counter : Int64) :
    s.evaluate name operand counter = s.evaluate c.name operand counter := by
  unfold evaluate lookups
  rw [← SymbolTable.symbolsFrom_normalize, h, SymbolTable.symbolsFrom_normalize]

theorem shows_of_normalizeName {settings : Settings} (h : LayoutFile.read text = .ok file)
    (hc : file.context? name = some c)
    (hname : normalizeName settings.foldCase c.name = normalizeName settings.foldCase name) :
    Shows settings file name := by
  obtain ⟨-, pre, post, hsplit, -⟩ := List.find?_eq_some_iff_append.1 hc
  have hk : file.contexts[pre.length]? = some c := by rw [hsplit]; simp
  have htake : file.contexts.take (pre.length + 1) = pre ++ [c] := by
    rw [hsplit, List.take_length_add_append]
    rfl
  have hstopped := resolveThrough_eq h hc hk settings.session
  rw [htake] at hstopped
  refine ⟨c, pre.length, ((settings.session.resolveContexts pre).resolve c.name c.records).1, hc, hk,
    ?_, ?_, ?_, ?_⟩
  · show (settings.session.resolveContexts file.contexts).layouts[pre.length]? = _
    rw [(awaits_contexts settings h).layouts_fresh, hsplit]
    exact getElem?_layoutsOf _ pre c post
  · rw [hstopped]
    exact layout?_resolveContexts_split _ pre [] hname
  · show (settings.session.resolveContexts file.contexts).layout? name = _
    rw [hsplit]
    exact layout?_resolveContexts_split _ pre post hname
  · rw [hstopped]
    refine evaluate_congr_context ?_
    rw [normalize_resolveContexts]
    exact hname.symm

theorem exists_context?_of_found (h : (s.resolveThrough file name).1 = true) :
    ∃ c ∈ file.contexts, file.context? name = some c ∧ c.isNamed name = true := by
  have hsome : (file.contexts.find? (·.isNamed name)).isSome = true :=
    List.find?_isSome.2 (resolveThrough_fst_iff.1 h)
  obtain ⟨c, hc⟩ := Option.isSome_iff_exists.1 hsome
  exact ⟨c, List.mem_of_find?_eq_some hc, hc,
    List.find?_some (p := fun c : ContextSource => c.isNamed name) hc⟩

/-- Ask an accepted file and a session for the same name. The file answers if a context goes by it up
to the case of ASCII letters, the session if one has the same normalized name. Where case is folded,
what the file finds the session shows; where it is not, what the session finds the file finds. Both
find the same where names are spelled alike. -/
theorem resolveThrough_finds (settings : Settings) (h : LayoutFile.read text = .ok file)
    (name : String) :
    let found := (settings.session.resolveThrough file name).1
    let whole := settings.session.resolveAll file
    (found = true ↔ ∃ c ∈ file.contexts,
        Text.sameAsciiLetters (Text.trim c.name) (Text.trim name) = true) ∧
      ((∃ layout, whole.layout? name = some layout) ↔ ∃ c ∈ file.contexts,
        normalizeName settings.foldCase c.name = normalizeName settings.foldCase name) ∧
      (settings.foldCase = true → found = true → Shows settings file name) ∧
      (settings.foldCase = false → (∃ layout, whole.layout? name = some layout) → found = true) ∧
      (file.SpelledAlike settings.foldCase name →
        (found = true ↔ ∃ layout, whole.layout? name = some layout) ∧
          (found = true → Shows settings file name)) := by
  intro found whole
  have hfound : found = true ↔ ∃ c ∈ file.contexts, c.isNamed name = true := resolveThrough_fst_iff
  have hlayout := layout?_fresh_iff settings file.contexts name
  refine ⟨hfound, hlayout, fun hfold hf => ?_, fun hfold hsome => ?_, fun halike => ⟨?_, fun hf => ?_⟩⟩
  · obtain ⟨c, -, hc, hnamed⟩ := exists_context?_of_found hf
    refine shows_of_normalizeName h hc ?_
    rw [hfold]
    exact ContextSource.normalizeName_of_isNamed hnamed
  · obtain ⟨c, hc, hname⟩ := hlayout.1 hsome
    rw [hfold] at hname
    exact hfound.2 ⟨c, hc, ContextSource.isNamed_of_normalizeName_false hname⟩
  · rw [hfound]
    refine Iff.trans ?_ hlayout.symm
    exact exists_congr fun c => and_congr_right fun hc => halike.isNamed_iff hc
  · obtain ⟨c, hmem, hc, hnamed⟩ := exists_context?_of_found hf
    exact shows_of_normalizeName h hc ((halike.isNamed_iff hmem).1 hnamed)

/-- A name in other ASCII letters where case is folded, and one between blanks where it is not. -/
theorem resolveThrough_finds_spelled :
    let file : LayoutFile := ⟨[⟨"Header", []⟩, ⟨" Rec", [⟨some "A", .ds, "F"⟩]⟩]⟩
    let exact : Settings := ⟨false, []⟩
    file.SpelledAlike true "rEC " ∧ file.SpelledAlike false "Rec " ∧
      Shows .standard file "rEC " ∧ Shows exact file "Rec " ∧
      ((exact.session.resolveThrough file "Rec").1 = true ↔
        ∃ layout, (exact.session.resolveAll file).layout? "Rec" = some layout) := by
  intro file exact
  have hread : LayoutFile.read "[[[\"Header\"],[\" Rec\",[[\"A\",\"DS\",\"F\"]]]]]" = .ok file := by
    decide +kernel
  have hfolded : file.SpelledAlike true "rEC " := by
    have hcontexts : ∀ c ∈ file.contexts, c.name.toList.all (·.toNat < 0x80) = true := by
      decide +kernel
    exact ⟨Text.plainCased_of_ascii (by decide +kernel),
      fun c hc => Text.plainCased_of_ascii (hcontexts c hc)⟩
  have hexact : ∀ name, file.SpelledAlike false name ↔ ∀ c ∈ file.contexts,
      c.isNamed name = true → Text.trim c.name = Text.trim name := fun _ => Iff.rfl
  have hblank : file.SpelledAlike false "Rec " := (hexact _).2 (by decide +kernel)
  have hplain : file.SpelledAlike false "Rec" := (hexact _).2 (by decide +kernel)
  refine ⟨hfolded, hblank, ?_, ?_, ?_⟩
  · exact ((resolveThrough_finds .standard hread "rEC ").2.2.2.2 hfolded).2 (by decide +kernel)
  · exact ((resolveThrough_finds exact hread "Rec ").2.2.2.2 hblank).2 (by decide +kernel)
  · exact ((resolveThrough_finds exact hread "Rec").2.2.2.2 hplain).1

/-- Where case is folded, a session knows a context by letters beyond ASCII in either case and its
file does not. Where case is not folded, the file finds a context in other ASCII letters under a name
that the session does not know. -/
theorem resolveThrough_finds_not_always :
    (¬ ∀ (text : String) (file : LayoutFile) (name : String), LayoutFile.read text = .ok file →
      (∃ layout, (Settings.standard.session.resolveAll file).layout? name = some layout) →
        (Settings.standard.session.resolveThrough file name).1 = true) ∧
    ¬ ∀ (text : String) (file : LayoutFile) (name : String), LayoutFile.read text = .ok file →
      let settings : Settings := ⟨false, []⟩
      (settings.session.resolveThrough file name).1 = true →
        ∃ layout, (settings.session.resolveAll file).layout? name = some layout := by
  constructor
  · intro h
    have hfound := h "[[[\"GRÖSSE\"]]]" ⟨[⟨"GRÖSSE", []⟩]⟩ "größe" (by decide +kernel)
      ((layout?_fresh_iff .standard _ _).2 ⟨⟨"GRÖSSE", []⟩, by simp, by decide +kernel⟩)
    exact absurd hfound (by decide +kernel)
  · intro h
    obtain ⟨layout, hlayout⟩ := h "[[[\"REC\"]]]" ⟨[⟨"REC", []⟩]⟩ "rec" (by decide +kernel)
      (by decide +kernel)
    obtain ⟨c, hc, hname⟩ := (layout?_fresh_iff ⟨false, []⟩ [⟨"REC", []⟩] "rec").1 ⟨layout, hlayout⟩
    rw [List.mem_singleton.1 hc] at hname
    exact absurd hname (by decide +kernel)

end Session
end AsmLayout
