import AsmLayout.Proofs.Json.RoundTrip
import AsmLayout.Proofs.LayoutFile.Accepted

/-!
# Layout files survive a round trip

A text that holds the JSON value of a file is read as the file, be it the one that is written for it
or another (`LayoutFile.read_toJson`). A label that is missing stays missing, an operand may be
empty and directives come back by name. All that can stand in the way is a key that two contexts
share.
-/

namespace AsmLayout

theorem Directive.ofText_name (d : Directive) : Directive.ofText d.name = .ok d := by
  cases d <;> decide +kernel

namespace Json

/-- The fields of an object are looked up among its members. -/
theorem fields?_record (names : List String) (members : List (String × Json)) :
    (Json.record members).fields? names = membersNamed? names members := by
  have hnamed : (members.map fun m => (some m.1, m.2)).mapM
      (fun m : Option String × Json => m.1.map fun key => (key, m.2)) = some members := by
    induction members with
    | nil => rfl
    | cons m members ih => simp [ih]
  rw [Json.record, fields?, hnamed]
  rfl

/-- Items that have been written one by one are read one by one. -/
theorem mapM_map_of_read {α : Type} {write : α → Json} {read? : Json → Option α} {items : List α}
    (h : ∀ x ∈ items, read? (write x) = some x) : (items.map write).mapM read? = some items := by
  induction items with
  | nil => rfl
  | cons x items ih =>
    rw [List.map_cons, List.mapM_cons, h x (by simp), ih fun y hy => h y (by simp [hy])]
    rfl

end Json

open Json (WellFormed)

namespace Record

theorem wellFormed_toJson (r : Record) : r.toJson.WellFormed := by
  obtain ⟨_ | label, directive, operand⟩ := r
  · exact .record (List.forall_mem_cons.2 ⟨.text _, List.forall_mem_singleton.2 (.text _)⟩)
  · exact .record (List.forall_mem_cons.2 ⟨.text _,
      List.forall_mem_cons.2 ⟨.text _, List.forall_mem_singleton.2 (.text _)⟩⟩)

theorem ofJson?_toJson (r : Record) : ofJson? r.toJson = some r := by
  obtain ⟨label, directive, operand⟩ := r
  have hdirective := directive.ofText_name
  cases label <;>
    simp [toJson, ofJson?, Json.fields?_record, Json.membersNamed?, Json.text, Json.string?,
      labelOfJson?, hdirective, Except.toOption]

end Record

namespace ContextSource

theorem wellFormed_toJson (c : ContextSource) : c.toJson.WellFormed := by
  refine .record (List.forall_mem_cons.2 ⟨.text _, List.forall_mem_singleton.2 (.array ?_)⟩)
  rintro _ hr
  obtain ⟨r, -, rfl⟩ := List.mem_map.1 hr
  exact r.wellFormed_toJson

theorem ofJson?_toJson (c : ContextSource) : ofJson? c.toJson = some c := by
  have hrecords : (c.records.map Record.toJson).mapM Record.ofJson? = some c.records :=
    Json.mapM_map_of_read fun r _ => r.ofJson?_toJson
  simp [toJson, ofJson?, Json.fields?_record, Json.membersNamed?, Json.text, Json.string?,
    Json.items?, hrecords]

end ContextSource

namespace LayoutFile

variable {file : LayoutFile} {text : String}

theorem wellFormed_toJson (file : LayoutFile) : file.toJson.WellFormed := by
  refine .record (List.forall_mem_singleton.2 (.array ?_))
  rintro _ hc
  obtain ⟨c, -, rfl⟩ := List.mem_map.1 hc
  exact c.wellFormed_toJson

theorem ofJson?_toJson (file : LayoutFile) : ofJson? file.toJson = some file := by
  have hcontexts : (file.contexts.map ContextSource.toJson).mapM ContextSource.ofJson? =
      some file.contexts :=
    Json.mapM_map_of_read fun c _ => c.ofJson?_toJson
  simp [toJson, ofJson?, Json.fields?_record, Json.membersNamed?, Json.items?, hcontexts]

/-- A text that holds the value of a file can only be refused for a key that was there before. -/
theorem read_eq_ok_iff_of_parse? (h : Json.parse? text = some file.toJson) :
    read text = .ok file ↔ (file.contexts.map ContextSource.key).Nodup := by
  rw [read_eq_ok_iff, h, Option.bind_some, ofJson?_toJson]
  exact and_iff_right rfl

/-- A file is read back from its text just if the keys of its contexts differ, and so is every file
that has been read. The text may be any other one that holds the same value. -/
theorem read_toJson :
    (∀ file : LayoutFile,
      read file.toJson.render = .ok file ↔ (file.contexts.map ContextSource.key).Nodup) ∧
    (∀ (text : String) (file : LayoutFile),
      read text = .ok file → read file.toJson.render = .ok file) ∧
    ∀ (text : String) (file : LayoutFile), Json.parse? text = some file.toJson →
      (read text = .ok file ↔ (file.contexts.map ContextSource.key).Nodup) := by
  have hrender : ∀ file : LayoutFile,
      read file.toJson.render = .ok file ↔ (file.contexts.map ContextSource.key).Nodup :=
    fun file => read_eq_ok_iff_of_parse? (Json.parse?_render file.wellFormed_toJson)
  refine ⟨hrender, fun text file h => ?_, fun text file h => read_eq_ok_iff_of_parse? h⟩
  exact (hrender file).2 (read_eq_ok_iff.1 h).2

/-- A text of arrays, and one of objects without white space. -/
theorem read_toJson_spelled :
    read "[[[\"x\",[[null,\" ds \"]]]]]" = .ok ⟨[⟨"x", [⟨none, .ds, ""⟩]⟩]⟩ ∧
    read (toJson ⟨[⟨"x", [⟨none, .ds, ""⟩]⟩]⟩).render = .ok ⟨[⟨"x", [⟨none, .ds, ""⟩]⟩]⟩ ∧
    read "\x7b\"contexts\":[\x7b\"name\":\"x\",\"records\":[]\x7d]\x7d" = .ok ⟨[⟨"x", []⟩]⟩ := by
  have hread : read "[[[\"x\",[[null,\" ds \"]]]]]" = .ok ⟨[⟨"x", [⟨none, .ds, ""⟩]⟩]⟩ := by
    decide +kernel
  have hparse : Json.parse? "\x7b\"contexts\":[\x7b\"name\":\"x\",\"records\":[]\x7d]\x7d" =
      some (toJson ⟨[⟨"x", []⟩]⟩) := rfl
  exact ⟨hread, read_toJson.2.1 _ _ hread, (read_toJson.2.2 _ _ hparse).2 (by simp)⟩

end LayoutFile
end AsmLayout
