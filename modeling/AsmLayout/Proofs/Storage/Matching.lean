import AsmLayout.Proofs.Storage.Groups
import AsmLayout.Proofs.Token.Placement

/-!
# The parenthesis that closes another

A storage operand is divided at parentheses that are found among its characters
(`StorageOperand.closing?_eq_splitGroup`). They are the ones that close each other among the tokens.
Main statement: `StorageOperand.closing?_places`.
-/

namespace AsmLayout

namespace Bracket

/-- Brackets that close more than is open do so first at a bracket before which all are closed. -/
theorem exists_closing_of_depth?_eq_none {depth : Nat} {bs : List Bracket}
    (h : depth? depth bs = none) :
    ∃ i, bs[i]? = some .closing ∧ depth? depth (bs.take i) = some 0 := by
  induction bs generalizing depth with
  | nil => cases h
  | cons b bs ih =>
    cases hb : step depth b with
    | none =>
      refine ⟨0, ?_⟩
      cases b with
      | opening | other => cases hb
      | closing =>
        cases depth with
        | zero => exact ⟨rfl, rfl⟩
        | succ depth => cases hb
    | some n =>
      have hcons : ∀ cs, depth? depth (b :: cs) = depth? n cs := by
        intro cs
        rw [depth?, List.foldlM_cons, hb]
        rfl
      rw [hcons] at h
      obtain ⟨i, hi, hdepth⟩ := ih h
      exact ⟨i + 1, hi, by rw [List.take_succ_cons, hcons, hdepth]⟩

end Bracket

namespace StorageOperand

open AsmLayout.Token

variable {registers : String → Option UInt8} {tokens : List Token}
  {placed inner : List (Token × Nat)} {before behind rest gap text : List Char}
  {i j c offset depth : Nat} {quoted : Bool}

/-- The offset of the parenthesis that closes the one at `offset`, which is the last character that
is read for it. -/
def closing? (text : List Char) (offset : Nat) : Option Nat :=
  (closeGroup 0 false (text.take offset).reverse (text.drop offset)).map fun parts =>
    parts.1.length - 1

theorem closing?_of_drop_eq (h : text.drop offset = '(' :: rest) :
    closing? text offset =
      (closeGroup 1 false ('(' :: (text.take offset).reverse) rest).map fun parts =>
        parts.1.length - 1 := by
  rw [closing?, h]
  rfl

theorem length_reverse_take (h : text.drop offset = '(' :: rest) :
    (text.take offset).reverse.length = offset := by
  have hlength := congrArg List.length h
  rw [List.length_drop, List.length_cons] at hlength
  rw [List.length_reverse, List.length_take]
  omega

theorem afterLengthCode_append :
    afterLengthCode (before ++ '(' :: behind) = afterLengthCode (before ++ ['(']) := by
  rcases before with _ | ⟨c, _ | ⟨d, before⟩⟩
  · cases behind <;> rfl
  · rfl
  · rfl

/-- What is read behind a parenthesis does not depend on what stands before it. -/
theorem closeGroup_append (behind : List Char) :
    closeGroup depth quoted (before ++ '(' :: behind) rest =
      (closeGroup depth quoted (before ++ ['(']) rest).map fun parts =>
        (behind.reverse ++ parts.1, parts.2) := by
  induction rest generalizing depth quoted before with
  | nil => rfl
  | cons c rest ih =>
    -- every way on puts `c` before what is still to be read
    have hnext := fun depth quoted => @ih (c :: before) depth quoted
    unfold closeGroup
    rw [afterLengthCode_append]
    split
    · exact hnext _ _
    split
    · exact hnext _ _
    split
    · exact hnext _ _
    split
    · cases depth with
      | zero => rfl
      | succ depth =>
        cases depth with
        | zero => simp
        | succ depth => exact hnext _ _
    · exact hnext _ _

/-- A group of the text from the parenthesis on ends where the parenthesis is closed in the text. -/
theorem closing?_eq_splitGroup (h : text.drop offset = '(' :: rest) :
    closing? text offset =
      (splitGroup (text.drop offset)).map fun parts => offset + (parts.1.length - 1) := by
  have hlength := length_reverse_take h
  have hsplit : splitGroup (text.drop offset) = closeGroup 1 false ['('] rest := by
    rw [h]
    rfl
  have happend := @closeGroup_append [] rest 1 false (text.take offset).reverse
  rw [List.nil_append, List.nil_append] at happend
  rw [closing?_of_drop_eq h, happend, hsplit]
  cases hgroup : closeGroup 1 false ['('] rest with
  | none => rfl
  | some parts =>
    have hpos := (append_of_closeGroup hgroup).2
    rw [List.length_reverse] at hlength
    simp only [Option.map_some, List.reverse_reverse, List.length_append, hlength]
    refine congrArg some ?_
    omega

/-- The parenthesis at the index `j` closes the one at `i`: those between them close each other. -/
structure Closes (tokens : List Token) (i j : Nat) : Prop where
  lt : i < j
  opening : tokens[i]? = some .leftParen
  closing : tokens[j]? = some .rightParen
  between : Bracket.Balanced (((tokens.take j).drop (i + 1)).map Token.bracket)

/-- The parenthesis at the index `j` closes one that stands before all the tokens. -/
structure ClosesOuter (tokens : List Token) (j : Nat) : Prop where
  closing : tokens[j]? = some .rightParen
  before : Bracket.Balanced ((tokens.take j).map Token.bracket)

theorem closes_iff (h : tokens[i]? = some .leftParen) :
    Closes tokens i j ↔ ∃ k, j = i + 1 + k ∧ ClosesOuter (tokens.drop (i + 1)) k := by
  constructor
  · intro hcloses
    obtain ⟨k, rfl⟩ := Nat.exists_eq_add_of_lt hcloses.lt
    refine ⟨k, by omega, ?_, ?_⟩
    · rw [List.getElem?_drop, ← hcloses.closing]
      congr 1
      omega
    · have hbetween := hcloses.between
      rw [List.drop_take] at hbetween
      rwa [show i + k + 1 - (i + 1) = k by omega] at hbetween
  · rintro ⟨k, rfl, hclosing, hbefore⟩
    refine ⟨by omega, h, ?_, ?_⟩
    · rw [← List.getElem?_drop]
      exact hclosing
    · rw [List.drop_take, Nat.add_sub_cancel_left]
      exact hbefore

theorem eq_take_cons_drop {α : Type} {l : List α} {a : α} (h : l[i]? = some a) :
    l = l.take i ++ a :: l.drop (i + 1) := by
  obtain ⟨hlt, rfl⟩ := List.getElem?_eq_some_iff.1 h
  rw [List.getElem_cons_drop, List.take_append_drop]

/-- The group ends with the parenthesis that closes it. -/
theorem closeGroup_of_closesOuter (h : Placed registers inner rest) (hdetached : Detached before)
    (hcloses : ClosesOuter (inner.map Prod.fst) j) (hj : inner[j]? = some (.rightParen, c))
    (gap : List Char) :
    ∃ group tail, closeGroup 1 false before (rest ++ gap) = some (group, tail) ∧
      group.length = before.length + c + 1 := by
  rw [eq_take_cons_drop hj] at h
  obtain ⟨text, blanks, spelling, tail, rfl, hfront, hblanks, hspells, rfl⟩ := h.split
  cases hspells
  have hbalanced := hcloses.before
  rw [← List.map_take] at hbalanced
  refine ⟨(')' :: (blanks.reverse ++ (text.reverse ++ before))).reverse, tail ++ gap, ?_, ?_⟩
  · rw [List.append_assoc, closeGroup_written hfront.written hdetached hbalanced, List.append_assoc,
      closeGroup_gap hblanks]
    rfl
  · simp
    omega

/-- No group ends where no parenthesis closes it. -/
theorem closeGroup_of_not_closesOuter (h : Placed registers inner rest) (hgap : IsGap gap)
    (hdetached : Detached before) (hopen : ∀ j, ¬ ClosesOuter (inner.map Prod.fst) j) :
    closeGroup 1 false before (rest ++ gap) = none := by
  cases hdepth : Bracket.depth? 0 ((inner.map Prod.fst).map Token.bracket) with
  | none =>
    obtain ⟨j, hj, hbefore⟩ := Bracket.exists_closing_of_depth?_eq_none hdepth
    rw [← List.map_take] at hbefore
    rw [List.getElem?_map, Option.map_eq_some_iff] at hj
    obtain ⟨token, htoken, hbracket⟩ := hj
    obtain rfl : token = .rightParen := by cases token <;> first | rfl | cases hbracket
    exact absurd ⟨htoken, hbefore⟩ (hopen j)
  | some n =>
    rw [closeGroup_written h.written hdetached hdepth, ← List.append_nil gap, closeGroup_gap hgap]
    rfl

variable {operand : String}

/-- What stands behind an opening parenthesis of an operand. -/
theorem exists_inner (h : Places registers operand placed)
    (hi : placed[i]? = some (.leftParen, offset)) :
    ∃ rest gap inner, operand.toList.drop offset = '(' :: (rest ++ gap) ∧ IsGap gap ∧
      Placed registers inner rest ∧ (placed.map Prod.fst).drop (i + 1) = inner.map Prod.fst ∧
      ∀ k, placed[i + 1 + k]? = inner[k]?.map fun entry => (entry.1, offset + 1 + entry.2) := by
  obtain ⟨text, gap, hoperand, hgap, hplaced⟩ := h
  rw [eq_take_cons_drop hi] at hplaced
  obtain ⟨text', rest, inner, rfl, rfl, hinner, hbehind⟩ := hplaced.behind_leftParen
  refine ⟨rest, gap, inner, ?_, hgap, hinner, ?_, fun k => ?_⟩
  · rw [hoperand, List.append_assoc, List.drop_left]
    rfl
  · rw [← List.map_drop, hbehind, List.map_map]
    rfl
  · rw [← List.getElem?_drop, hbehind, List.getElem?_map]

theorem detached_leftParen : Detached ('(' :: before) := by
  rintro c ⟨⟩
  rfl

theorem closing?_of_closes (h : Places registers operand placed)
    (hi : placed[i]? = some (.leftParen, offset)) (hcloses : Closes (placed.map Prod.fst) i j)
    (hj : placed[j]? = some (.rightParen, c)) : closing? operand.toList offset = some c := by
  obtain ⟨rest, gap, inner, hdrop, hgap, hinner, htokens, hentries⟩ := exists_inner h hi
  obtain ⟨k, rfl, houter⟩ := (closes_iff hcloses.opening).1 hcloses
  rw [htokens] at houter
  rw [hentries, Option.map_eq_some_iff] at hj
  obtain ⟨⟨token, c'⟩, hk, hentry⟩ := hj
  obtain ⟨rfl, rfl⟩ := Prod.mk.inj hentry
  obtain ⟨group, tail, hgroup, hlength⟩ :=
    closeGroup_of_closesOuter hinner detached_leftParen houter hk gap
  rw [closing?_of_drop_eq hdrop, hgroup, Option.map_some, hlength, List.length_cons,
    length_reverse_take hdrop]
  refine congrArg some ?_
  omega

theorem closing?_eq_none (h : Places registers operand placed)
    (hi : placed[i]? = some (.leftParen, offset))
    (hopen : ∀ j, ¬ Closes (placed.map Prod.fst) i j) : closing? operand.toList offset = none := by
  obtain ⟨rest, gap, inner, hdrop, hgap, hinner, htokens, -⟩ := exists_inner h hi
  have hopening : (placed.map Prod.fst)[i]? = some .leftParen := by simp [hi]
  have houter : ∀ k, ¬ ClosesOuter (inner.map Prod.fst) k := by
    intro k hk
    rw [← htokens] at hk
    exact hopen (i + 1 + k) ((closes_iff hopening).2 ⟨k, rfl, hk⟩)
  rw [closing?_of_drop_eq hdrop,
    closeGroup_of_not_closesOuter hinner hgap detached_leftParen houter]
  rfl

/-- The parenthesis that closes another is found among the characters where it stands among the
tokens, and is not found where none of the tokens closes it. The parentheses among the tokens are
those of the text that stand in no payload between apostrophes. -/
theorem closing?_places (h : scan registers operand = .ok tokens) :
    (∃ placed, Places registers operand placed) ∧
    ∀ placed, Places registers operand placed → placed.map Prod.fst = tokens ∧
      (∀ i offset, placed[i]? = some (.leftParen, offset) →
        (∀ c, closing? operand.toList offset = some c ↔
          ∃ j, Closes tokens i j ∧ placed[j]? = some (.rightParen, c)) ∧
        (closing? operand.toList offset = none ↔ ∀ j, ¬ Closes tokens i j)) ∧
      ∀ paren char k, IsParen paren char →
        ((paren, k) ∈ placed ↔ operand.toList[k]? = some char ∧ ¬ InPayload placed k) := by
  obtain ⟨placed₀, -, hplaces₀⟩ := exists_places h
  refine ⟨⟨placed₀, hplaces₀⟩, fun placed hplaces => ?_⟩
  have htokens : placed.map Prod.fst = tokens := Except.ok.inj (hplaces.scan.symm.trans h)
  subst htokens
  refine ⟨rfl, fun i offset hi => ?_, fun paren char k hparen => hplaces.mem_iff hparen⟩
  by_cases hcloses : ∃ j, Closes (placed.map Prod.fst) i j
  · obtain ⟨j, hj⟩ := hcloses
    have hentry := hj.closing
    rw [List.getElem?_map, Option.map_eq_some_iff] at hentry
    obtain ⟨⟨token, c⟩, hc, rfl⟩ := hentry
    have hfound := closing?_of_closes hplaces hi hj hc
    refine ⟨fun c' => ⟨fun hc' => ?_, ?_⟩, ?_⟩
    · rw [hfound] at hc'
      cases hc'
      exact ⟨j, hj, hc⟩
    · rintro ⟨j', hj', hc'⟩
      exact closing?_of_closes hplaces hi hj' hc'
    · rw [hfound]
      exact iff_of_false nofun fun hnone => hnone j hj
  · have hopen := not_exists.1 hcloses
    rw [closing?_eq_none hplaces hi hopen]
    refine ⟨fun c' => iff_of_false nofun ?_, iff_of_true rfl hopen⟩
    rintro ⟨j, hj, -⟩
    exact hopen j hj

/-- A parenthesis that is open, and one closed behind a length attribute and a quoted parenthesis. -/
theorem closing?_places_quoted :
    let operand := "((L'A+C')')"
    let placed : List (Token × Nat) := [(.leftParen, 0), (.leftParen, 1), (.literal "L" "A", 2),
      (.operator '+', 5), (.literal "C" ")", 6), (.rightParen, 10)]
    scan (fun _ => none) operand = .ok (placed.map Prod.fst) ∧
      Places (fun _ => none) operand placed ∧ closing? operand.toList 0 = none ∧
      closing? operand.toList 1 = some 10 ∧ InPayload placed 8 := by
  intro operand placed
  have hscan : scan (fun _ => none) operand = .ok (placed.map Prod.fst) := by decide +kernel
  have hplaces : Places (fun _ => none) operand placed := by
    have hfree : ∀ {before : List Token} {token : Token}, ¬ NeedsGap before token →
        NeedsGap before token → ([] : List Char) ≠ [] := fun hnot h => absurd h hnot
    have hmark : ∀ {before : List Token} {token : Token}, token.isRun = false →
        NeedsGap before token → ([] : List Char) ≠ [] :=
      fun hrun => hfree (not_needsGap_of_not_isRun hrun)
    have hone := Placed.nil.concat isGap_nil (hmark rfl) (@Spells.leftParen (fun _ => none) [])
    have htwo := hone.concat isGap_nil (hmark rfl) .leftParen
    have hlength := htwo.concat isGap_nil
      (hfree (not_needsGap (by rintro last ⟨⟩; exact .inr (.inr rfl))))
      (@Spells.lengthOf _ _ 'L' ['A'] (.inl rfl) (by simp) (by simp [isNameChar]))
    have hsum := hlength.concat isGap_nil (hmark rfl) (.sign (.inl rfl))
    have hliteral := hsum.concat isGap_nil
      (hfree (not_needsGap (by rintro last ⟨⟩; exact .inl ⟨_, rfl⟩)))
      (@Spells.literal _ _ ['C'] [')'] (.of_isNameStart (by decide)) (by decide))
    have hclosed := hliteral.concat isGap_nil (hmark rfl) .rightParen
    exact ⟨_, [], by decide +kernel, isGap_nil, hclosed⟩
  obtain ⟨-, hmatch, hparens⟩ := (closing?_places hscan).2 placed hplaces
  refine ⟨hscan, hplaces, ?_, ?_, ?_⟩
  · refine (hmatch 0 0 rfl).2.2 fun j hj => ?_
    -- the only closing parenthesis stands behind one more that it leaves open
    have hlast : j = 5 := by
      obtain ⟨hlt, hget⟩ := List.getElem?_eq_some_iff.1 hj.closing
      have hlt' : j < 6 := hlt
      interval_cases j <;> first | rfl | cases hget
    have hbetween := hj.between
    rw [hlast] at hbetween
    exact absurd hbetween (by decide)
  · exact ((hmatch 1 1 rfl).1 10).2 ⟨5, ⟨by decide, rfl, rfl, by decide⟩, rfl⟩
  · by_contra hpayload
    have hmem := (hparens .rightParen ')' 8 (.inr ⟨rfl, rfl⟩)).2 ⟨by decide +kernel, hpayload⟩
    exact absurd hmem (by decide)

end StorageOperand
end AsmLayout
