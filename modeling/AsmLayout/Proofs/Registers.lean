import AsmLayout.Proofs.Session.Operations
import AsmLayout.Proofs.Toml.Keys
import AsmLayout.Proofs.Token.Grammar

/-!
# What a name means as a register

Aliases are kept in order, each once (`Settings.inOrder_of_read`), and of those that are one name in
upper case the last is found (`NameMap.find?_insertAll`). A scanned operand says of every name what
the table says of it (`Token.Written.classified`), so that its registers can be read again. Main
statement: `Settings.registers_agree`.
-/

namespace AsmLayout

namespace NameMap

variable {α : Type}

/-- Of the values inserted under a name the last is found, and without any what was there before. -/
theorem find?_insertAll (m : NameMap α) (values : List (String × α)) (name : String) :
    (m.insertAll values).find? name =
      match (values.filter fun entry => Text.upper entry.1 == Text.upper name).getLast? with
      | some entry => some entry.2
      | none => m.find? name := by
  induction values using List.reverseRecOn with
  | nil => rfl
  | append_singleton values entry ih =>
    have hlast : m.insertAll (values ++ [entry]) = (m.insertAll values).insert entry.1 entry.2 :=
      List.foldl_append
    rw [hlast, find?_insert, List.filter_append]
    by_cases h : Text.upper name = Text.upper entry.1
    · simp [h]
    · have hne : ¬ Text.upper entry.1 = Text.upper name := fun heq => h heq.symm
      simp [h, hne, ih]

end NameMap

namespace Settings

variable {aliases result : List (String × UInt8)} {entry : String × UInt8} {name text : String}
  {number : UInt8} {settings : Settings}

/-- The names are in code-point order, each once. -/
def InOrder (aliases : List (String × UInt8)) : Prop := aliases.Pairwise fun a b => a.1 < b.1

theorem mem_insertAlias :
    entry ∈ insertAlias aliases name number ↔ entry = (name, number) ∨ entry ∈ aliases := by
  induction aliases with
  | nil => simp [insertAlias]
  | cons first rest ih =>
    unfold insertAlias
    split
    · simp
    · simp only [List.mem_cons, ih]
      exact or_left_comm

theorem InOrder.insertAlias (h : InOrder aliases) (hnew : ∀ entry ∈ aliases, entry.1 ≠ name) :
    InOrder (insertAlias aliases name number) := by
  induction aliases with
  | nil => exact List.pairwise_singleton _ _
  | cons first rest ih =>
    obtain ⟨hfirst, hrest⟩ := List.pairwise_cons.1 h
    unfold Settings.insertAlias
    split
    · next hlt =>
      refine List.pairwise_cons.2 ⟨fun entry hentry => ?_, h⟩
      rcases List.mem_cons.1 hentry with rfl | hentry
      · exact hlt
      · exact String.lt_trans hlt (hfirst entry hentry)
    · next hle =>
      have hbefore : first.1 < name := by
        rcases lt_trichotomy first.1 name with hlt | heq | hgt
        · exact hlt
        · exact absurd heq (hnew first List.mem_cons_self)
        · exact absurd hgt hle
      refine List.pairwise_cons.2 ⟨fun entry hentry => ?_,
        ih hrest fun entry hentry => hnew entry (List.mem_cons_of_mem _ hentry)⟩
      rcases mem_insertAlias.1 hentry with rfl | hentry
      · exact hbefore
      · exact hfirst entry hentry

/-- Members with different keys are put in order. -/
theorem InOrder.foldlM {members : Toml.Table} (h : InOrder aliases)
    (hkeys : (members.map Prod.fst).Nodup)
    (hnew : ∀ entry ∈ aliases, entry.1 ∉ members.map Prod.fst)
    (hfold : members.foldlM (fun aliases m => do
      some (Settings.insertAlias aliases m.1 (← byte? m.2))) aliases = some result) :
    InOrder result := by
  induction members generalizing aliases with
  | nil =>
    cases hfold
    exact h
  | cons m members ih =>
    obtain ⟨hm, hkeys⟩ := List.nodup_cons.1 hkeys
    rw [List.foldlM_cons] at hfold
    obtain ⟨aliases', hstep, hfold⟩ := Option.bind_eq_some_iff.1 hfold
    obtain ⟨number, -, hstep⟩ := Option.bind_eq_some_iff.1 hstep
    cases hstep
    refine ih (h.insertAlias fun entry hentry heq => ?_) hkeys (fun entry hentry hmem => ?_) hfold
    · exact hnew entry hentry (by simp [heq])
    · rcases mem_insertAlias.1 hentry with rfl | hentry
      · exact hm hmem
      · exact hnew entry hentry (List.mem_cons_of_mem _ hmem)

theorem inOrder_of_ofTable? {root : Toml.Table} (hroot : root.Distinct)
    (h : ofTable? root = some settings) : InOrder settings.aliases := by
  obtain ⟨foldCase, -, h⟩ := Option.bind_eq_some_iff.1 h
  obtain ⟨aliases, haliases, h⟩ := Option.bind_eq_some_iff.1 h
  cases h
  cases hnode : List.lookup "registers" root with
  | none =>
    rw [hnode] at haliases
    cases haliases
    exact List.Pairwise.nil
  | some node =>
    rw [hnode] at haliases
    obtain ⟨members, hmembers, hfold⟩ := Option.bind_eq_some_iff.1 haliases
    have hdistinct := (hroot.lookup hnode).of_members? hmembers
    exact InOrder.foldlM List.Pairwise.nil hdistinct.keys nofun hfold

theorem inOrder_of_read (h : read text = .ok settings) : InOrder settings.aliases := by
  unfold read at h
  cases hparse : (Toml.parse? text).bind ofTable? with
  | none => rw [hparse] at h; cases h
  | some settings' =>
    rw [hparse] at h
    obtain ⟨root, hroot, htable⟩ := Option.bind_eq_some_iff.1 hparse
    dsimp only at h
    split at h
    · cases h
    · cases h
      exact inOrder_of_ofTable? (Toml.distinct_of_parse? hroot) htable

theorem isValidAlias_of_read (h : read text = .ok settings) (hentry : entry ∈ settings.aliases) :
    isValidAlias entry.1 entry.2 = true := by
  unfold read at h
  split at h
  · cases h
  split at h
  · cases h
  · next hnone =>
    cases h
    simpa using List.find?_eq_none.1 hnone entry hentry

/-- What a name means as a register: the number of the greatest alias that is the same name in upper
case, or else that of the standard register of this name, if there is one. -/
inductive Names (settings : Settings) (name : String) : Option UInt8 → Prop
  | greatest {entry : String × UInt8} (hmem : entry ∈ settings.aliases)
      (hsame : Text.upper entry.1 = Text.upper name)
      (hgreatest : ∀ other ∈ settings.aliases, Text.upper other.1 = Text.upper name →
        other.1 ≤ entry.1) :
      Names settings name (some entry.2)
  | standard (hnone : ∀ other ∈ settings.aliases, Text.upper other.1 ≠ Text.upper name) :
      Names settings name (RegisterTable.standard.find? name)

theorem InOrder.le_getLast (h : InOrder aliases) (hlast : aliases.getLast? = some entry) :
    ∀ other ∈ aliases, other.1 ≤ entry.1 := by
  obtain ⟨init, rfl⟩ := List.getLast?_eq_some_iff.1 hlast
  intro other hother
  rcases List.mem_append.1 hother with hother | hother
  · exact le_of_lt ((List.pairwise_append.1 h).2.2 other hother entry (by simp))
  · rw [List.mem_singleton.1 hother]

theorem InOrder.names (h : InOrder settings.aliases) (name : String) :
    settings.Names name (settings.registers.find? name) := by
  unfold registers
  rw [NameMap.find?_insertAll]
  have hsame : ∀ other, other ∈ settings.aliases.filter
      (fun entry => Text.upper entry.1 == Text.upper name) ↔
        other ∈ settings.aliases ∧ Text.upper other.1 = Text.upper name := by
    simp [List.mem_filter]
  split
  · next entry hlast =>
    have hmem := (hsame entry).1 (List.mem_of_getLast? hlast)
    have hinOrder : InOrder (settings.aliases.filter
        fun entry => Text.upper entry.1 == Text.upper name) := List.Pairwise.filter _ h
    exact .greatest hmem.1 hmem.2 fun other hother hupper =>
      hinOrder.le_getLast hlast other ((hsame other).2 ⟨hother, hupper⟩)
  · next hlast =>
    refine .standard fun other hother hupper => ?_
    have hnil := List.getLast?_eq_none_iff.1 hlast
    have hmem := (hsame other).2 ⟨hother, hupper⟩
    rw [hnil] at hmem
    cases hmem

theorem standard_number_le (h : RegisterTable.standard.find? name = some number) :
    number.toNat ≤ 15 := by
  have hall : ∀ entry ∈ RegisterTable.standard.entries, entry.2.toNat ≤ 15 := by decide
  obtain ⟨before, after, hsplit, -⟩ := List.lookup_eq_some_iff.1 h
  exact hall (Text.upper name, number) (by rw [hsplit]; simp)

theorem number_le_of_read (h : read text = .ok settings)
    (hfind : settings.registers.find? name = some number) : number.toNat ≤ 15 := by
  have hnames := (inOrder_of_read h).names name
  rw [hfind] at hnames
  generalize hsome : some number = found at hnames
  cases hnames with
  | greatest hmem hsame hgreatest =>
    cases hsome
    have hvalid := isValidAlias_of_read h hmem
    simp only [isValidAlias, Bool.and_eq_true, decide_eq_true_eq] at hvalid
    exact UInt8.le_iff_toNat_le.1 hvalid.1
  | standard hnone => exact standard_number_le hsome.symm

end Settings

namespace Token

variable {find : String → Option UInt8} {tokens before : List Token} {token : Token}
  {text spelling : List Char}

/-- A register has the number that its name is found with, and the name of a symbol is not found. -/
def Classified (find : String → Option UInt8) : Token → Prop
  | register name number => find name = some number
  | symbol name => find name = none
  | _ => True

theorem Spells.classified (h : Spells find before token spelling) : token.Classified find := by
  cases h with
  | register hname hfind => exact hfind
  | symbol hname hfind => exact hfind
  | _ => trivial

theorem Written.classified (h : Written find tokens text) :
    ∀ token ∈ tokens, token.Classified find := by
  induction h with
  | nil => nofun
  | concat _ _ _ hspells ih =>
    intro token htoken
    rcases List.mem_append.1 htoken with htoken | htoken
    · exact ih token htoken
    · rw [List.mem_singleton.1 htoken]
      exact hspells.classified

/-- Reading a register again gives the number that it was read with. -/
theorem Classified.resolve [TypeCatalog] (h : token.Classified find) (counter : Int64)
    (symbols : Symbols) :
    Expr.resolveToken ⟨counter, symbols, some find⟩ token =
      Expr.resolveToken ⟨counter, symbols, none⟩ token := by
  cases token with
  | register name number =>
    have hfind : find name = some number := h
    simp only [Expr.resolveToken, hfind]
  | _ => rfl

theorem evaluateTokens_classified [TypeCatalog] (h : ∀ token ∈ tokens, token.Classified find)
    (counter : Int64) (symbols : Symbols) :
    Expr.evaluateTokens ⟨counter, symbols, some find⟩ tokens =
      Expr.evaluateTokens ⟨counter, symbols, none⟩ tokens := by
  have hterms : tokens.mapM (Expr.resolveToken ⟨counter, symbols, some find⟩) =
      tokens.mapM (Expr.resolveToken ⟨counter, symbols, none⟩) := by
    induction tokens with
    | nil => rfl
    | cons token tokens ih =>
      rw [List.mapM_cons, List.mapM_cons, (h token List.mem_cons_self).resolve,
        ih fun token ht => h token (List.mem_cons_of_mem _ ht)]
  unfold Expr.evaluateTokens
  rw [hterms]

end Token

/-- Under settings that are read from a text, a name means the greatest of its aliases or a standard
register, with a number up to 15. A session goes by the same numbers after any operations: they are
those of the registers that it scans, it takes no name of a register for a symbol, and expressions
have the same value whether or not their registers are looked up again. -/
theorem Settings.registers_agree {text : String} {settings : Settings}
    (h : Settings.read text = .ok settings) (operations : List Operation) :
    let find := settings.registers.find?
    let session := settings.session.after operations
    InOrder settings.aliases ∧ (∀ name, settings.Names name (find name)) ∧
      (∀ name number, find name = some number → number.toNat ≤ 15) ∧
      ∀ operand tokens, session.tokenize operand = .ok tokens →
        (∀ name number, .register name number ∈ tokens → find name = some number) ∧
        (∀ name, .symbol name ∈ tokens → find name = none) ∧
        ∀ [TypeCatalog] (counter : Int64) (symbols : Symbols),
          Expr.evaluateTokens ⟨counter, symbols, some session.registers.find?⟩ tokens =
            Expr.evaluateTokens ⟨counter, symbols, none⟩ tokens := by
  intro find session
  have hinOrder := inOrder_of_read h
  refine ⟨hinOrder, hinOrder.names, fun _ _ => number_le_of_read h, fun operand tokens hscan => ?_⟩
  have hregisters : session.registers = settings.registers :=
    (Session.after_sameSettings settings.session operations).registers
  have hscan' : Token.scan find operand = .ok tokens := by
    rw [← hscan, Session.tokenize, hregisters]
  obtain ⟨written, gap, -, -, hwritten⟩ := Token.written_of_scan hscan'
  have hclassified := hwritten.classified
  refine ⟨fun name number hmem => hclassified _ hmem, fun name hmem => hclassified _ hmem, ?_⟩
  intro catalog counter symbols
  rw [hregisters]
  exact Token.evaluateTokens_classified hclassified counter symbols

/-- An alias that hides another and a standard register, in a session with a label. -/
theorem Settings.registers_agree_hidden :
    let settings : Settings := ⟨true, [("R5", 9), ("WORK", 12), ("r5", 7)]⟩
    let session := settings.session.after [.resolve "REC" [⟨some "A", .ds, "2F"⟩]]
    let tokens : List Token := [.register "R5" 7, .operator '+', .register "work" 12,
      .operator '*', .symbol "A", .operator '-', .register "R06" 6]
    Settings.read "[registers]\nr5 = 7\nWORK = 12\nR5 = 9" = .ok settings ∧
      session.tokenize "R5+work*A-R06" = .ok tokens ∧
      settings.registers.find? "R5" = some 7 ∧ settings.registers.find? "A" = none ∧
      ∀ (counter : Int64) (symbols : Symbols),
        Expr.evaluateTokens ⟨counter, symbols, some session.registers.find?⟩ tokens =
          Expr.evaluateTokens ⟨counter, symbols, none⟩ tokens := by
  intro settings session tokens
  have hread : Settings.read "[registers]\nr5 = 7\nWORK = 12\nR5 = 9" = .ok settings := by
    decide +kernel
  have hscan : session.tokenize "R5+work*A-R06" = .ok tokens := by decide +kernel
  obtain ⟨-, -, -, hsession⟩ := Settings.registers_agree hread
    [.resolve "REC" [⟨some "A", .ds, "2F"⟩]]
  obtain ⟨hnumbers, hnames, hvalues⟩ := hsession _ _ hscan
  exact ⟨hread, hscan, hnumbers "R5" 7 (by decide), hnames "A" (by decide), hvalues⟩

end AsmLayout
