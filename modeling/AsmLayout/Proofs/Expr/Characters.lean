import AsmLayout.Proofs.Storage
import Mathlib.Data.List.DropRight

/-!
# The characters of references

A name that an operand refers to is cut out of the operand: it holds no character that the operand
does not hold. Main statements: `Expr.subset_of_mem_references` and
`StorageOperand.subset_of_mem_references`.
-/

namespace AsmLayout

namespace Text

theorem strip_subset (cs : List Char) : strip cs ⊆ cs := by
  unfold strip
  intro c hc
  exact List.dropWhile_subset _ ((List.rdropWhile_prefix isBlank _).subset hc)

end Text

namespace Expr

/-- The characters of a piece that stands for an operand. -/
def Piece.characters : Piece → List Char
  | .operand text => text
  | .operator _ | .leftParen | .rightParen => []

namespace Splitter

/-- What has been split off so far is made of the characters `read`. -/
structure MadeOf (s : Splitter) (read : List Char) : Prop where
  pieces : ∀ piece ∈ s.pieces, piece.characters ⊆ read
  current : s.current ⊆ read

variable {pieces : List Piece} {current read : List Char}

theorem flushed_madeOf (hpieces : ∀ piece ∈ pieces, piece.characters ⊆ read)
    (hcurrent : current ⊆ read) : ∀ piece ∈ flushed pieces current, piece.characters ⊆ read := by
  intro piece hpiece
  unfold flushed at hpiece
  split at hpiece
  · exact hpieces piece hpiece
  · rcases List.mem_append.1 hpiece with h | h
    · exact hpieces piece h
    · rw [List.mem_singleton.1 h]
      exact hcurrent

theorem flushed_append_madeOf {last : Piece} (hpieces : ∀ piece ∈ pieces, piece.characters ⊆ read)
    (hcurrent : current ⊆ read) (hlast : last.characters = []) :
    ∀ piece ∈ flushed pieces current ++ [last], piece.characters ⊆ read := by
  intro piece hpiece
  rcases List.mem_append.1 hpiece with h | h
  · exact flushed_madeOf hpieces hcurrent piece h
  · rw [List.mem_singleton.1 h, hlast]
    exact List.nil_subset read

theorem stepOutside_madeOf {c : Char} (hpieces : ∀ piece ∈ pieces, piece.characters ⊆ read)
    (hcurrent : current ⊆ read) (hc : c ∈ read) : (stepOutside pieces current c).MadeOf read := by
  have hlonger : current ++ [c] ⊆ read :=
    List.append_subset.2 ⟨hcurrent, List.cons_subset.2 ⟨hc, List.nil_subset read⟩⟩
  unfold stepOutside
  split
  · exact ⟨hpieces, hlonger⟩
  split
  · exact ⟨flushed_append_madeOf hpieces hcurrent rfl, List.nil_subset read⟩
  split
  · exact ⟨flushed_append_madeOf hpieces hcurrent rfl, List.nil_subset read⟩
  split
  · exact ⟨hpieces, List.cons_subset.2 ⟨hc, List.nil_subset read⟩⟩
  split
  · exact ⟨flushed_append_madeOf hpieces hcurrent rfl, List.nil_subset read⟩
  split
  · exact ⟨flushed_madeOf hpieces hcurrent, List.nil_subset read⟩
  · exact ⟨hpieces, hlonger⟩

theorem step_madeOf {s : Splitter} {c : Char} (h : s.MadeOf read) (hc : c ∈ read) :
    (s.step c).MadeOf read := by
  have hlonger : s.current ++ [c] ⊆ read :=
    List.append_subset.2 ⟨h.current, List.cons_subset.2 ⟨hc, List.nil_subset read⟩⟩
  unfold Splitter.step
  split
  · exact stepOutside_madeOf h.pieces h.current hc
  · exact ⟨h.pieces, hlonger⟩
  · split
    · exact ⟨h.pieces, hlonger⟩
    · exact stepOutside_madeOf h.pieces h.current hc

theorem foldl_madeOf {s : Splitter} {cs : List Char} (h : s.MadeOf read) (hcs : cs ⊆ read) :
    (cs.foldl step s).MadeOf read := by
  induction cs generalizing s with
  | nil => exact h
  | cons c cs ih =>
    obtain ⟨hc, hrest⟩ := List.cons_subset.1 hcs
    exact ih (step_madeOf h hc) hrest

end Splitter

theorem characters_subset_of_mem_split {text : List Char} {ps : List Piece} {piece : Piece}
    (h : split text = some ps) (hpiece : piece ∈ ps) : piece.characters ⊆ text := by
  have hstart : Splitter.start.MadeOf text := ⟨by simp [Splitter.start], List.nil_subset text⟩
  have hmade := Splitter.foldl_madeOf hstart (List.Subset.refl text)
  unfold split at h
  dsimp only at h
  split at h
  · cases h
  all_goals
    cases h
    exact Splitter.flushed_madeOf hmade.pieces hmade.current piece hpiece

theorem subset_of_fieldReference? {code name : String} {field : List Char}
    (h : fieldReference? code field = some name) : name.toList ⊆ field := by
  unfold fieldReference? at h
  split at h
  · cases h
    rw [symbolKey, String.toList_ofList]
    exact List.takeWhile_subset _
  · cases h

theorem withoutClosing_subset (cs : List Char) : withoutClosing cs ⊆ cs := by
  unfold withoutClosing
  split
  · exact (List.dropLast_sublist cs).subset
  · exact List.Subset.refl cs

theorem subset_of_textReference? {text : List Char} {name : String}
    (h : textReference? text = some name) : name.toList ⊆ text := by
  unfold textReference? at h
  split at h
  · cases h
  split at h
  · exact subset_of_fieldReference? h
  · next rest hrest =>
    have htail : rest ⊆ text := fun c hc =>
      List.dropWhile_subset _ (hrest ▸ List.mem_cons_of_mem _ hc)
    have hpayload := List.Subset.trans (Text.undoubled_subset _) (withoutClosing_subset rest)
    exact List.Subset.trans (subset_of_fieldReference? h) (List.Subset.trans hpayload htail)

theorem subset_of_pieceReference? {piece : Piece} {name : String}
    (h : pieceReference? piece = some name) : name.toList ⊆ piece.characters := by
  cases piece with
  | operand text => exact subset_of_textReference? h
  | operator sign => cases h
  | leftParen => cases h
  | rightParen => cases h

/-- The names in an expression are made of its characters. -/
theorem subset_of_mem_references {text name : String} (h : name ∈ references text) :
    name.toList ⊆ text.toList := by
  obtain ⟨piece, hpiece, hname⟩ := List.mem_filterMap.1 h
  have hsplit : piece.characters ⊆ Text.strip text.toList := by
    unfold pieces at hpiece
    cases hps : split (Text.strip text.toList) with
    | none => rw [hps] at hpiece; cases hpiece
    | some ps =>
      rw [hps] at hpiece
      exact characters_subset_of_mem_split hps hpiece
  exact List.Subset.trans (subset_of_pieceReference? hname)
    (List.Subset.trans hsplit (Text.strip_subset _))

end Expr

namespace StorageOperand

theorem subset_of_splitGroup {text group rest : List Char}
    (h : splitGroup text = some (group, rest)) : group ⊆ text ∧ rest ⊆ text := by
  rw [← append_of_splitGroup h]
  exact ⟨List.subset_append_left .., List.subset_append_right ..⟩

theorem subset_of_frontExpression? {text : List Char} {e : String}
    (h : frontExpression? text = some e) : e.toList ⊆ text := by
  unfold frontExpression? at h
  split at h
  · obtain ⟨⟨group, rest⟩, hsplit, rfl⟩ := Option.map_eq_some_iff.1 h
    rw [String.toList_ofList]
    exact (subset_of_splitGroup hsplit).1
  · cases h

theorem afterDuplication_subset (text : List Char) : afterDuplication text ⊆ text := by
  unfold afterDuplication
  split
  · cases hsplit : splitGroup text with
    | none => exact List.nil_subset text
    | some group => exact (subset_of_splitGroup hsplit).2
  · exact List.dropWhile_subset _

theorem afterLengthLetter_subset (text : List Char) : afterLengthLetter text ⊆ text := by
  unfold afterLengthLetter
  split
  · exact List.subset_cons_self ..
  · exact List.subset_cons_self ..
  · exact List.nil_subset text

theorem subset_of_mem_expressions {operand e : String} (h : e ∈ expressions operand) :
    e.toList ⊆ operand.toList := by
  have hstrip := Text.strip_subset operand.toList
  rcases List.mem_append.1 h with h | h
  · rw [Option.mem_toList] at h
    exact List.Subset.trans (subset_of_frontExpression? h) hstrip
  · rw [Option.mem_toList] at h
    have hlength : e.toList ⊆ afterDuplication (Text.strip operand.toList) := fun c hc =>
      List.dropWhile_subset _ (afterLengthLetter_subset _ (subset_of_frontExpression? h hc))
    exact List.Subset.trans hlength (List.Subset.trans (afterDuplication_subset _) hstrip)

/-- The names in a storage operand are made of its characters. -/
theorem subset_of_mem_references {operand name : String} (h : name ∈ references operand) :
    name.toList ⊆ operand.toList := by
  obtain ⟨e, he, hname⟩ := List.mem_flatMap.1 h
  exact List.Subset.trans (Expr.subset_of_mem_references hname) (subset_of_mem_expressions he)

end StorageOperand
end AsmLayout
