import ActionPolicy.Proofs.Document.Decisions
import ActionPolicy.Proofs.Resolve.Extension
import ActionPolicy.RuleTable.Source

/-!
# Extending in steps

A table is checked as a whole each time it is extended. What is wrong first in the templates that
are there already is wrong first in all of them, so it does not matter in how many steps they come.
A file that names a built-in table says the same as extending that table.

## Main definitions

* `RuleTable.withVersion` – the templates of a table under another version.

## Main statements

* `templatesFault?_append` – what is wrong first in templates with others behind them.
* `RuleTable.extended_eq_ok_iff`, `RuleTable.extended_eq_error_iff` – what a table is extended to.
* `RuleTable.extended_bind_extended`, `RuleTable.foldlM_extended` – two steps, and any number.
* `TableSource.load_extending` – a file that names a built-in table.
* `RuleTable.extended_steps_and_file` – all of it.
-/

namespace ActionPolicy

/-! ### The first fault of a longer list -/

/-- The codes before a position are in the reverse order in which they were seen. -/
theorem templatesFault?_append {front back : List Template} {seen : List String} {index : Nat} :
    templatesFault? seen index (front ++ back) =
      (templatesFault? seen index front).or
        (templatesFault? ((front.map Template.code).reverse ++ seen) (index + front.length) back) := by
  induction front generalizing seen index with
  | nil => rfl
  | cons t rest ih =>
    rw [List.cons_append, templatesFault?, templatesFault?]
    cases t.fault? seen index with
    | some e => rfl
    | none =>
      dsimp only
      rw [ih, List.map_cons, List.reverse_cons, List.append_assoc, List.singleton_append,
        List.length_cons, Nat.add_assoc, Nat.add_comm 1]

/-- A version that is not empty has no part in what is wrong. -/
theorem tableFault?_of_version {version : String} (h : version ≠ "") (templates : List Template) :
    tableFault? version templates = templatesFault? [] 0 templates := by
  rw [tableFault?, if_neg (by simpa using h)]

namespace RuleTable

variable {table extension : RuleTable} {custom : List Template} {e : ConfigurationError}

theorem version_ne (table : RuleTable) : table.version ≠ "" := by
  intro h
  have hsound := table.sound
  rw [h] at hsound
  contradiction

/-- The templates of a table under another version. -/
def withVersion (table : RuleTable) (version : String) (h : version ≠ "") : RuleTable :=
  ⟨version, table.templates,
    (tableFault?_of_version h table.templates).trans table.templatesFault?_eq_none⟩

/-! ### One step -/

theorem ofTemplates_eq_ok_iff {version : String} {templates : List Template} :
    ofTemplates version templates = .ok table ↔
      table.version = version ∧ table.templates = templates := by
  constructor
  · intro h
    unfold ofTemplates at h
    split at h
    · contradiction
    · exact Except.ok.inj h ▸ ⟨rfl, rfl⟩
  · rintro ⟨rfl, rfl⟩
    exact ofTemplates_eq_ok table.sound

theorem ofTemplates_eq_error_iff {version : String} {templates : List Template} :
    ofTemplates version templates = .error e ↔ tableFault? version templates = some e := by
  unfold ofTemplates
  split
  · rename_i e' he
    simp [he]
  · rename_i hnone
    simp [hnone]

/-- A table that is extended keeps its version and has the further templates behind its own. -/
theorem extended_eq_ok_iff : table.extended custom = .ok extension ↔
    extension.version = table.version ∧ extension.templates = table.templates ++ custom :=
  ofTemplates_eq_ok_iff

theorem extended_eq_error_iff : table.extended custom = .error e ↔
    templatesFault? [] 0 (table.templates ++ custom) = some e := by
  rw [extended, ofTemplates_eq_error_iff, tableFault?_of_version table.version_ne]

/-- What is wrong first stays so with further templates. -/
theorem extended_append_of_error (h : table.extended custom = .error e) (more : List Template) :
    table.extended (custom ++ more) = .error e := by
  rw [extended_eq_error_iff] at h ⊢
  rw [← List.append_assoc, templatesFault?_append, h, Option.some_or]

theorem extended_nil (table : RuleTable) : table.extended [] = .ok table :=
  extended_eq_ok_iff.mpr ⟨rfl, (List.append_nil _).symm⟩

/-! ### Several steps -/

theorem extended_bind_extended (table : RuleTable) (custom more : List Template) :
    (table.extended custom >>= fun extension => extension.extended more) =
      table.extended (custom ++ more) := by
  cases h : table.extended custom with
  | error e => exact (extended_append_of_error h more).symm
  | ok extension =>
    obtain ⟨hversion, htemplates⟩ := extended_eq_ok_iff.mp h
    show extension.extended more = table.extended (custom ++ more)
    rw [extended, extended, hversion, htemplates, List.append_assoc]

/-- Any number of steps is one step with all their templates. -/
theorem foldlM_extended (table : RuleTable) (batches : List (List Template)) :
    batches.foldlM extended table = table.extended batches.flatten := by
  induction batches generalizing table with
  | nil => exact table.extended_nil.symm
  | cons custom rest ih =>
    rw [List.foldlM_cons, List.flatten_cons, ← extended_bind_extended]
    exact bind_congr fun extension => ih extension

end RuleTable

/-! ### Files -/

/-- Nothing is wrong with a built-in table. -/
theorem Profile.exists_table (p : Profile) :
    ∃ table, p.table = .ok table ∧ table.templates = p.templates := by
  cases p with
  | desktop => exact ⟨_, rfl, rfl⟩
  | mobile => exact ⟨_, rfl, rfl⟩

theorem TableDocument.table_extending (p : Profile) {version : String} (hversion : version ≠ "")
    (custom : List Template) :
    (⟨version, some p, custom⟩ : TableDocument).table =
      (p.table >>= fun base => base.extended custom).map (·.withVersion version hversion) := by
  obtain ⟨base, hbase, htemplates⟩ := p.exists_table
  show RuleTable.ofTemplates version (p.templates ++ custom) = _
  rw [hbase, ← htemplates]
  show _ = (base.extended custom).map (·.withVersion version hversion)
  cases h : base.extended custom with
  | error e =>
    rw [RuleTable.extended_eq_error_iff] at h
    exact RuleTable.ofTemplates_eq_error_iff.mpr ((tableFault?_of_version hversion _).trans h)
  | ok extension =>
    obtain ⟨-, htemplates⟩ := RuleTable.extended_eq_ok_iff.mp h
    exact RuleTable.ofTemplates_eq_ok_iff.mpr ⟨rfl, htemplates⟩

theorem RuleTable.ofFile_toUTF8 (text : String) : ofFile (.ok text.toUTF8) = ofYaml text := by
  simp only [ofFile, Except.mapError, bind, Except.bind]
  rw [String.fromUTF8?_toUTF8]

/-- A file that names a built-in table is loaded as that table extended, under its own version. -/
theorem TableSource.load_extending {contentOf : String → Except FileError ByteArray}
    {path text version : String} {p : Profile} {custom : List Template}
    (hcontent : contentOf path = .ok text.toUTF8)
    (hread : Document.readYaml TableDocument.decode text = .ok ⟨version, some p, custom⟩)
    (hversion : version ≠ "") :
    (file path).load contentOf =
      ((p.table >>= fun base => base.extended custom).map
        (·.withVersion version hversion)).mapError TableError.configuration := by
  rw [load, hcontent, RuleTable.ofFile_toUTF8, RuleTable.ofYaml, hread,
    ← TableDocument.table_extending p hversion custom]
  rfl

namespace RuleTable

/-- Extending a table in steps is extending it at once, with the same table or the same fault. Its
version stays, and its templates come first. A file that names a built-in table and holds further
templates gives what extending the built-in table with them gives, under its own version. -/
theorem extended_steps_and_file :
    (∀ (table : RuleTable) (custom more : List Template),
        (table.extended custom >>= fun extension => extension.extended more) =
          table.extended (custom ++ more)) ∧
      (∀ (table : RuleTable) (batches : List (List Template)),
        batches.foldlM extended table = table.extended batches.flatten) ∧
      (∀ (table extension : RuleTable) (custom : List Template),
        table.extended custom = .ok extension ↔
          extension.version = table.version ∧
            extension.templates = table.templates ++ custom) ∧
      ∀ (contentOf : String → Except FileError ByteArray) (path text version : String)
        (p : Profile) (custom : List Template) (hversion : version ≠ ""),
        contentOf path = .ok text.toUTF8 →
          Document.readYaml TableDocument.decode text = .ok ⟨version, some p, custom⟩ →
            (TableSource.file path).load contentOf =
              ((p.table >>= fun base => base.extended custom).map
                (·.withVersion version hversion)).mapError TableError.configuration := by
  refine ⟨extended_bind_extended, foldlM_extended, fun _ _ _ => extended_eq_ok_iff, ?_⟩
  intro contentOf path text version p custom hversion hcontent hread
  exact TableSource.load_extending hcontent hread hversion

/-- The table of the mobile client with one more action, as written. -/
def urgeText : String :=
  "table_version: custom-2\nextends: mobile\ntemplates:\n  - code: urge\n    action:\n" ++
    "      label: Urge\n"

/-- The further action. -/
def urge : Template := ⟨"urge", none, .any, .action (.ofLabel "Urge")⟩

theorem extended_steps_and_file_urge :
    Document.readYaml TableDocument.decode urgeText = .ok ⟨"custom-2", some .mobile, [urge]⟩ ∧
      (TableSource.file "rules.yaml").load (fun _ => .ok urgeText.toUTF8) =
        ((Profile.mobile.table >>= fun base => base.extended [urge]).map
          (·.withVersion "custom-2" (by decide))).mapError TableError.configuration := by
  have hread : Document.readYaml TableDocument.decode urgeText =
      .ok ⟨"custom-2", some .mobile, [urge]⟩ := by decide +kernel
  exact ⟨hread, extended_steps_and_file.2.2.2 _ _ _ _ _ _ (by decide) rfl hread⟩

end RuleTable

end ActionPolicy
