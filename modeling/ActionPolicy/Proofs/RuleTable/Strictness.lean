import ActionPolicy.Proofs.Document.Keys
import ActionPolicy.Proofs.Document.WireTypes
import ActionPolicy.RuleTable.Source

/-!
# Keys of a rule table

A rule table is written with six records, one inside another. Three of them are strict: the table
itself, a template and its conditions. An action, its question and field permissions are not, so
there a key that stands for no field is skipped, be it a misspelt one or not.

## Main definitions

* `TableLevel` – the records that a rule table is written with.
* `TableLevel.partsAt`, `TableLevel.valuesAt` – where the records of a level stand in a document,
  and what a table holds at that level.
* `TableLevel.Heard` – a part is written as a record of a level, and which of its members count.

## Main statements

* `TableLevel.forall₂_partsAt` – what a table holds is read from those parts, one by one.
* `TableLevel.read_eq_ok_iff_heard` – a part is read exactly where its keys are names, at a strict
  level those of fields, and the members of fields alone are read as the value.
* `TableDocument.keys_of_readYaml` – so are all records of a document that is read.
* `TableDocument.readYaml_misspelt` – a document with misspelt keys at the three other levels is
  read as if they were not there.
-/

namespace ActionPolicy

variable {σ α : Type}

/-- The records that a rule table is written with. -/
inductive TableLevel where
  | table
  | template
  | conditions
  | action
  | confirm
  | fieldPermission
  deriving DecidableEq, Repr

/-- A template comes from one draft only. -/
theorem Template.Draft.eq_draft_of_settle {d : Template.Draft} {t : Template}
    (h : d.settle = .ok t) : d = t.draft := by
  obtain ⟨code, priority, conditions, action, fieldPermission⟩ := d
  cases action <;> cases fieldPermission <;> cases h <;> rfl

/-! ### What holds other records -/

section Holds

variable [Source σ] {sheet : Sheet σ}

theorem Template.read_of_decode {part : σ} {t : Template} (h : (decode part).result = .ok t) :
    (Draft.record.read "RawTemplate" true part).result = .ok t.draft := by
  obtain ⟨draft, hread, hsettle⟩ := Decoded.result_bind_eq_ok_iff.mp h
  have hsettled : draft.settle = .ok t := mapError_eq_ok_iff.mp hsettle
  rw [← Draft.eq_draft_of_settle hsettled]
  exact hread

theorem TableDocument.templates_of_holds {d : TableDocument} (h : record.Holds sheet 0 d) :
    List.Forall₂ (fun part t => (Template.decode part).result = .ok t)
      (((sheet.layout.part? "templates" 2).map Source.itemsOf).getD []) d.templates := by
  unfold record at h
  simp only [Record.holds_seq, Record.holds_map] at h
  obtain ⟨_, templates, ⟨_, base, ⟨version, -, rfl⟩, -, rfl⟩, htemplates, rfl⟩ := h
  exact Record.forall₂_of_holds_listOf htemplates

theorem Template.Draft.parts_of_holds {d : Template.Draft} (h : record.Holds sheet 0 d) :
    (∀ part, sheet.layout.part? "conditions" 2 = some part →
        (Conditions.decode part).result = .ok d.conditions) ∧
      List.Forall₂ (fun part a => (ActionSpec.decode part).result = .ok a)
        ((sheet.layout.part? "action" 3).bind Source.unlessNull).toList d.action.toList ∧
      List.Forall₂ (fun part a => (FieldPermissionSpec.decode part).result = .ok a)
        ((sheet.layout.part? "field_permission" 4).bind Source.unlessNull).toList
        d.fieldPermission.toList := by
  unfold record at h
  simp only [Record.holds_seq, Record.holds_map] at h
  obtain ⟨_, fieldPermission, ⟨_, action, ⟨_, conditions, ⟨_, priority, ⟨code, -, rfl⟩, -, rfl⟩,
    hconditions, rfl⟩, haction, rfl⟩, hpermission, rfl⟩ := h
  exact ⟨fun _ => Record.result_of_holds_field hconditions,
    Record.forall₂_of_holds_optional haction, Record.forall₂_of_holds_optional hpermission⟩

theorem ActionSpec.confirm_of_holds {a : ActionSpec} (h : record.Holds sheet 0 a) :
    List.Forall₂ (fun part c => (Confirm.decode part).result = .ok c)
      ((sheet.layout.part? "confirm" 5).bind Source.unlessNull).toList a.confirm.toList := by
  unfold record at h
  simp only [Record.holds_seq, Record.holds_map] at h
  obtain ⟨_, target, ⟨_, className, ⟨_, confirm, ⟨_, requireComment, ⟨_, auth, ⟨_, icon, ⟨_, style,
    ⟨label, -, rfl⟩, -, rfl⟩, -, rfl⟩, -, rfl⟩, -, rfl⟩, hconfirm, rfl⟩, -, rfl⟩, -, rfl⟩ := h
  exact Record.forall₂_of_holds_optional hconfirm

end Holds

namespace TableLevel

/-! ### The records of the levels -/

/-- What is read at a level. -/
def Value : TableLevel → Type
  | table => TableDocument
  | template => Template.Draft
  | conditions => Conditions
  | action => ActionSpec
  | confirm => Confirm
  | fieldPermission => FieldPermissionSpec

/-- The name of the record. -/
def name : TableLevel → String
  | table => "TableFile"
  | template => "RawTemplate"
  | conditions => "Conditions"
  | action => "ActionSpec"
  | confirm => "Confirm"
  | fieldPermission => "FieldPermissionSpec"

/-- The record has no other keys than its fields. -/
def strict : TableLevel → Bool
  | table | template | conditions => true
  | action | confirm | fieldPermission => false

/-- The fields that the record is declared with. -/
def fields : TableLevel → List String
  | table => ["table_version", "extends", "templates"]
  | template => ["code", "priority", "conditions", "action", "field_permission"]
  | conditions => ["status", "node_types", "roles", "form_types"]
  | action =>
    ["label", "style", "icon", "auth", "require_comment", "confirm", "class_name", "target"]
  | confirm => ["title", "ok_text", "cancel_text"]
  | fieldPermission => ["editable", "readonly", "hidden", "required"]

variable [Source σ]

/-- The description of the record. -/
def record : (l : TableLevel) → Record σ l.Value
  | table => TableDocument.record
  | template => Template.Draft.record
  | conditions => Conditions.record
  | action => ActionSpec.record
  | confirm => Confirm.record
  | fieldPermission => FieldPermissionSpec.record

/-- Reads a part of a document as the record. -/
def read (l : TableLevel) (s : σ) : Decoded l.Value := l.record.read l.name l.strict s

theorem fields_record (l : TableLevel) : (l.record (σ := σ)).fields = l.fields := by
  cases l <;> rfl

theorem byParts_record (l : TableLevel) : (l.record (σ := σ)).ByParts := by
  cases l with
  | table => exact Record.byParts_map_field.and_field.and_field
  | template => exact Record.byParts_map_field.and_field.and_field.and_field.and_field
  | conditions => exact Record.byParts_map_field.and_field.and_field.and_field
  | action =>
    exact Record.byParts_map_field.and_field.and_field.and_field.and_field.and_field.and_field
      |>.and_field
  | confirm => exact Record.byParts_map_field.and_field.and_field
  | fieldPermission => exact Record.byParts_map_field.and_field.and_field.and_field

/-! ### Where the records stand -/

/-- The level of which the records hold those of a level; the table is in no other record. -/
def parent : TableLevel → TableLevel
  | table | template => table
  | conditions | action | fieldPermission => template
  | confirm => action

/-- The part under a key of a part that is a record of the level. -/
def under (l : TableLevel) (key : String) (s : σ) : Option σ :=
  (Source.layout l.name s).result.toOption.bind fun layout => layout.part? key (l.fields.idxOf key)

/-- The records of a level that stand in a part of the level above. -/
def within : TableLevel → σ → List σ
  | table, _ => []
  | template, s => ((table.under "templates" s).map Source.itemsOf).getD []
  | conditions, s => (template.under "conditions" s).toList
  | action, s => ((template.under "action" s).bind Source.unlessNull).toList
  | confirm, s => ((action.under "confirm" s).bind Source.unlessNull).toList
  | fieldPermission, s => ((template.under "field_permission" s).bind Source.unlessNull).toList

/-- What a value of the level above holds at a level. -/
def given : (l : TableLevel) → l.parent.Value → List l.Value
  | table, _ => []
  | template, d => d.templates.map Template.draft
  | conditions, t => [t.conditions]
  | action, t => t.action.toList
  | confirm, a => a.confirm.toList
  | fieldPermission, t => t.fieldPermission.toList

/-- The records of a level in a document, of which the root is given. -/
def partsAt (root : σ) : TableLevel → List σ
  | table => [root]
  | template => within template root
  | conditions => (within template root).flatMap (within conditions)
  | action => (within template root).flatMap (within action)
  | confirm => ((within template root).flatMap (within action)).flatMap (within confirm)
  | fieldPermission => (within template root).flatMap (within fieldPermission)

/-- What a table holds at a level. -/
def valuesAt (d : TableDocument) : (l : TableLevel) → List l.Value
  | table => [d]
  | template => given template d
  | conditions => (given template d).flatMap (given conditions)
  | action => (given template d).flatMap (given action)
  | confirm => ((given template d).flatMap (given action)).flatMap (given confirm)
  | fieldPermission => (given template d).flatMap (given fieldPermission)

/-- The keys of a part that is a record of the level. -/
def keysOf (l : TableLevel) (s : σ) : List Label :=
  match (Source.layout l.name s).result with
  | .ok (.members entries) => entries.map Member.label
  | _ => []

/-- The keys of the records of a level in a document. -/
def keysAt (root : σ) (l : TableLevel) : List Label := (partsAt root l).flatMap l.keysOf

/-! ### From a record to those within -/

variable {s t : σ} {l : TableLevel}

theorem holds_of_read {a : l.Value} (h : (l.read s).result = .ok a) :
    ∃ sheet : Sheet σ, l.record.Holds sheet 0 a ∧
      ∀ key, l.under key s = sheet.layout.part? key (l.fields.idxOf key) := by
  obtain ⟨layout, hlayout, hread⟩ := Record.result_read_eq_ok_iff.mp h
  refine ⟨_, (Record.result_readLayout_eq_ok_iff.mp hread).2, fun key => ?_⟩
  rw [under, hlayout]
  rfl

theorem forall₂_templates {d : TableDocument} (h : (table.read s).result = .ok d) :
    List.Forall₂ (fun t b => (template.read t).result = .ok b) (within template s)
      (given template d) := by
  obtain ⟨sheet, hholds, hunder⟩ := holds_of_read h
  have hparts := (TableDocument.templates_of_holds hholds).imp fun _ _ => Template.read_of_decode
  rw [within, hunder]
  exact List.forall₂_map_right_iff.mpr hparts

theorem forall₂_confirm {a : ActionSpec} (h : (action.read s).result = .ok a) :
    List.Forall₂ (fun t b => (confirm.read t).result = .ok b) (within confirm s)
      (given confirm a) := by
  obtain ⟨sheet, hholds, hunder⟩ := holds_of_read h
  rw [within, hunder]
  exact ActionSpec.confirm_of_holds hholds

theorem read_parts {d : Template.Draft} (h : (template.read s).result = .ok d) :
    (∀ t ∈ within conditions s, (conditions.read t).result = .ok d.conditions) ∧
      List.Forall₂ (fun t b => (action.read t).result = .ok b) (within action s)
        (given action d) ∧
      List.Forall₂ (fun t b => (fieldPermission.read t).result = .ok b)
        (within fieldPermission s) (given fieldPermission d) := by
  obtain ⟨sheet, hholds, hunder⟩ := holds_of_read h
  obtain ⟨hconditions, haction, hpermission⟩ := Template.Draft.parts_of_holds hholds
  rw [within, within, within, hunder, hunder, hunder]
  exact ⟨fun t ht => hconditions t (Option.mem_toList.mp ht), haction, hpermission⟩

/-- The records of a level in a value are read from the parts of the level, one by one. The
conditions of a template, which are there even if none are written, are an exception. -/
theorem forall₂_within (hl : l ≠ conditions) {a : l.parent.Value}
    (h : (l.parent.read s).result = .ok a) :
    List.Forall₂ (fun t b => (l.read t).result = .ok b) (l.within s) (l.given a) := by
  cases l with
  | table => exact .nil
  | template => exact forall₂_templates h
  | conditions => exact absurd rfl hl
  | action => exact (read_parts h).2.1
  | confirm => exact forall₂_confirm h
  | fieldPermission => exact (read_parts h).2.2

variable {root : σ} {d : TableDocument}

/-- From the root of a document that is read as a table, what the table holds at a level is read
from the parts of the level, one by one. -/
theorem forall₂_partsAt (h : (table.read root).result = .ok d) (hl : l ≠ conditions) :
    List.Forall₂ (fun s a => (l.read s).result = .ok a) (partsAt root l) (valuesAt d l) := by
  have htemplates := forall₂_templates h
  -- Each level below is reached from the one above it, part by part.
  have hbelow : ∀ (l : TableLevel), l ≠ conditions → ∀ {parts : List σ}
      {values : List l.parent.Value},
      List.Forall₂ (fun s a => (l.parent.read s).result = .ok a) parts values →
        List.Forall₂ (fun t b => (l.read t).result = .ok b) (parts.flatMap l.within)
          (values.flatMap l.given) :=
    fun l hl _ _ hparts => List.rel_flatMap hparts fun _ _ hread => forall₂_within hl hread
  cases l with
  | table => exact .cons h .nil
  | template => exact htemplates
  | conditions => exact absurd rfl hl
  | action => exact hbelow action hl htemplates
  | confirm => exact hbelow confirm hl (hbelow action (by decide) htemplates)
  | fieldPermission => exact hbelow fieldPermission hl htemplates

/-- Each part of a level is read as something that the table holds; conditions that are written are
those of a template. -/
theorem exists_read (h : (table.read root).result = .ok d) (hs : s ∈ partsAt root l) :
    ∃ a ∈ valuesAt d l, (l.read s).result = .ok a := by
  by_cases hl : l = conditions
  · subst hl
    obtain ⟨part, hpart, hwithin⟩ := List.mem_flatMap.mp hs
    obtain ⟨t, ht, hread⟩ := exists_of_mem_of_forall₂ (forall₂_templates h) hpart
    have hmem : t.conditions ∈ valuesAt d conditions :=
      List.mem_flatMap.mpr ⟨t, ht, List.mem_singleton_self _⟩
    exact ⟨t.conditions, hmem, (read_parts hread).1 s hwithin⟩
  · exact exists_of_mem_of_forall₂ (forall₂_partsAt h hl) hs

/-! ### Which keys are heard -/

/-- A part is written as a record of the level: its members have names as keys, at a strict level
those of fields, and the value comes from the members of fields alone, each of them written once. -/
structure Heard (l : TableLevel) (s : σ) (entries : List (Member σ)) (a : l.Value) : Prop where
  layout : (Source.layout l.name s).result = .ok (.members entries)
  keys : ∀ m ∈ entries, ∃ key, m.label = .name key ∧ (l.strict = true → key ∈ l.fields)
  /-- A strict record would have the same value without the members that are no fields. -/
  value : (l.record.readLayout l.name true
    (.members (entries.filter (Record.isField l.fields)))).result = .ok a

theorem Heard.mem_keysOf {entries : List (Member σ)} {a : l.Value} (h : l.Heard s entries a)
    {key : Label} (hkey : key ∈ l.keysOf s) :
    ∃ name, key = .name name ∧ (l.strict = true → name ∈ l.fields) := by
  rw [keysOf, h.layout] at hkey
  obtain ⟨m, hm, rfl⟩ := List.mem_map.mp hkey
  exact h.keys m hm

end TableLevel

namespace Yaml

/-- The part that is the whole document. -/
def Tree.rootPart (tree : Tree) : Part := ⟨tree, tree.root, [], 0⟩

namespace Part

variable {p : Part}

theorem mismatch_ne_ok (expected : Expected) (a : α) : p.mismatch expected ≠ .ok a := by
  unfold mismatch fail
  split
  · simp
  · split <;> simp
  · simp
  · simp

theorem label_ne_position (key : Node) (n : Nat) : p.label key ≠ .position n := by
  unfold label
  split <;> simp

/-- A record is written with its members, and their keys are names or none at all. -/
theorem exists_members {name : String} {layout : Layout Part} (h : p.layout name = .ok layout) :
    ∃ entries, layout = .members entries ∧ ∀ m ∈ entries, ∀ n, m.label ≠ .position n := by
  unfold Part.layout at h
  split at h
  · rename_i entries _
    cases henter : p.enter with
    | error e =>
      rw [henter] at h
      cases h
    | ok _ =>
      rw [henter] at h
      refine ⟨_, (Except.ok.inj h).symm, ?_⟩
      rw [List.forall_mem_map]
      exact fun entry _ => label_ne_position entry.1
  · split at h
    · exact ⟨[], (Except.ok.inj h).symm, fun m hm => absurd hm List.not_mem_nil⟩
    · exact absurd h (mismatch_ne_ok _ _)

end Part

end Yaml

namespace Document

variable {read : Yaml.Part → Decoded α} {text : String}

/-- What is read once the text is known to be a document. -/
def readTree (read : Yaml.Part → Decoded α) (tree : Yaml.Tree) : Except DocumentError α :=
  ((read tree.rootPart).limited tree.referenceLimit
    (Yaml.globalFault .tooManyReferences)).mapError (errorIn .yaml)

theorem readYaml_eq_readTree {tree : Yaml.Tree} (h : Yaml.Tree.ofText? text = some tree) :
    readYaml read text = readTree read tree := by
  rw [readYaml, h]
  rfl

theorem exists_tree_of_readYaml {a : α} (h : readYaml read text = .ok a) :
    ∃ tree, Yaml.Tree.ofText? text = some tree ∧ (read tree.rootPart).result = .ok a := by
  cases htree : Yaml.Tree.ofText? text with
  | none =>
    rw [readYaml, htree] at h
    cases h
  | some tree =>
    rw [readYaml_eq_readTree htree, readTree, mapError_eq_ok_iff, Decoded.limited] at h
    refine ⟨tree, rfl, ?_⟩
    split at h
    · cases h
    · exact h

end Document

namespace TableLevel

variable {l : TableLevel} {p : Yaml.Part} {a : l.Value}

/-- What is read from a part is heard from some of its members, and a part is read where this is
so. Any named key is accepted at a level that is not strict. -/
theorem read_eq_ok_iff_heard :
    (l.read p).result = .ok a ↔ ∃ entries, l.Heard p entries a := by
  have hlayout : (Source.layout l.name p).result = p.layout l.name := rfl
  constructor
  · intro h
    obtain ⟨layout, hwritten, hread⟩ := Record.result_read_eq_ok_iff.mp h
    obtain ⟨entries, rfl, hposition⟩ := Yaml.Part.exists_members (hlayout.symm.trans hwritten)
    obtain ⟨hadmits, hvalue⟩ := (Record.result_readLayout_members_iff l.byParts_record).mp hread
    rw [fields_record] at hadmits hvalue
    refine ⟨entries, hwritten, fun m hm => ?_, hvalue⟩
    cases hm' : m.label with
    | name key => exact ⟨key, rfl, (Record.admits_name_iff hm').mp (hadmits m hm)⟩
    | position n => exact absurd hm' (hposition m hm n)
    | bad e => exact absurd hm' ((hadmits m hm).ne_bad e)
  · rintro ⟨entries, hwritten, hkeys, hvalue⟩
    refine Record.result_read_eq_ok_iff.mpr ⟨_, hwritten, ?_⟩
    refine (Record.result_readLayout_members_iff l.byParts_record).mpr ⟨fun m hm => ?_, ?_⟩
    · rw [fields_record]
      obtain ⟨key, hm', hfield⟩ := hkeys m hm
      exact (Record.admits_name_iff hm').mpr hfield
    · rw [fields_record]
      exact hvalue

end TableLevel

/-! ### Documents -/

namespace TableDocument

/-- In a document that is read as a table, the table, its templates and their conditions have no
other keys than their fields. Actions, their questions and field permissions may have further keys,
under which nothing is heard: the table holds what the fields alone say. -/
theorem keys_of_readYaml {text : String} {d : TableDocument}
    (h : Document.readYaml decode text = .ok d) :
    (∀ (l : TableLevel) (p : Yaml.Part) (a : l.Value),
        (l.read p).result = .ok a ↔ ∃ entries, l.Heard p entries a) ∧
      ∃ tree, Yaml.Tree.ofText? text = some tree ∧
        (∀ l : TableLevel, l.strict = true →
          ∀ key ∈ l.keysAt tree.rootPart, ∃ field ∈ l.fields, key = .name field) ∧
        (∀ l : TableLevel, ∀ p ∈ l.partsAt tree.rootPart, ∃ a ∈ l.valuesAt d, ∃ entries,
          l.Heard p entries a) ∧
        ∀ l : TableLevel, l ≠ .conditions →
          List.Forall₂ (fun p a => ∃ entries, l.Heard p entries a) (l.partsAt tree.rootPart)
            (l.valuesAt d) := by
  obtain ⟨tree, htree, hread⟩ := Document.exists_tree_of_readYaml h
  have hheard : ∀ l : TableLevel, ∀ p ∈ l.partsAt tree.rootPart, ∃ a ∈ l.valuesAt d, ∃ entries,
      l.Heard p entries a := by
    intro l p hp
    obtain ⟨a, ha, hreada⟩ := TableLevel.exists_read hread hp
    exact ⟨a, ha, TableLevel.read_eq_ok_iff_heard.mp hreada⟩
  refine ⟨fun l p a => TableLevel.read_eq_ok_iff_heard, tree, htree, ?strict, hheard, ?values⟩
  case strict =>
    intro l hstrict key hkey
    obtain ⟨p, hp, hkey⟩ := List.mem_flatMap.mp hkey
    obtain ⟨a, -, entries, hheard⟩ := hheard l p hp
    obtain ⟨field, hname, hfield⟩ := hheard.mem_keysOf hkey
    exact ⟨field, hfield hstrict, hname⟩
  case values =>
    intro l hl
    exact (TableLevel.forall₂_partsAt hread hl).imp fun p a => TableLevel.read_eq_ok_iff_heard.mp

/-- Two templates, with misspelt keys at each level that is not strict. -/
def misspeltText : String :=
  "table_version: v1\ntemplates:\n- code: claim\n  action:\n    label: Claim\n" ++
    "    requre_comment: true\n    tagret: task\n    confirm:\n      title: Sure\n" ++
    "      ok_txt: Go\n- code: pay\n  field_permission:\n    hiden: [salary]\n"

/-- What is read: an action that requires no comment and has no target, and nothing hidden. -/
def misspelt : TableDocument where
  version := "v1"
  base := none
  templates :=
    [⟨"claim", none, .any,
        .action { ActionSpec.ofLabel "Claim" with confirm := some ⟨"Sure", none, none⟩ }⟩,
      ⟨"pay", none, .any, .fieldPermission ⟨[], [], [], []⟩⟩]

theorem exists_tree_misspelt :
    ∃ tree, Yaml.Tree.ofText? misspeltText = some tree ∧
      Document.readYaml decode misspeltText = .ok misspelt ∧
      TableLevel.action.keysAt tree.rootPart =
        [.name "label", .name "requre_comment", .name "tagret", .name "confirm"] ∧
      TableLevel.confirm.keysAt tree.rootPart = [.name "title", .name "ok_txt"] ∧
      TableLevel.fieldPermission.keysAt tree.rootPart = [.name "hiden"] := by
  -- The text is split into its parts once for all.
  have hall : (Yaml.Tree.ofText? misspeltText).map (fun tree =>
      (Document.readTree decode tree, TableLevel.action.keysAt tree.rootPart,
        TableLevel.confirm.keysAt tree.rootPart,
        TableLevel.fieldPermission.keysAt tree.rootPart)) =
      some (.ok misspelt,
        [.name "label", .name "requre_comment", .name "tagret", .name "confirm"],
        [.name "title", .name "ok_txt"], [.name "hiden"]) := by
    decide +kernel
  obtain ⟨tree, htree, hall⟩ := Option.map_eq_some_iff.mp hall
  simp only [Prod.mk.injEq] at hall
  exact ⟨tree, htree, (Document.readYaml_eq_readTree htree).trans hall.1, hall.2⟩

theorem keys_of_readYaml_misspelt :
    Document.readYaml decode misspeltText = .ok misspelt ∧
      ∃ tree, Yaml.Tree.ofText? misspeltText = some tree ∧
        List.Forall₂ (fun p a => ∃ entries, TableLevel.action.Heard p entries a)
          (TableLevel.action.partsAt tree.rootPart)
          [{ ActionSpec.ofLabel "Claim" with confirm := some ⟨"Sure", none, none⟩ }] := by
  obtain ⟨-, -, hread, -⟩ := exists_tree_misspelt
  obtain ⟨-, tree, htree, -, -, hparts⟩ := keys_of_readYaml hread
  exact ⟨hread, tree, htree, hparts .action (by decide)⟩

/-- Misspelt keys of an action, its question and field permissions are no fields, and the document
is read all the same. -/
theorem readYaml_misspelt :
    Document.readYaml decode misspeltText = .ok misspelt ∧
      ∃ tree, Yaml.Tree.ofText? misspeltText = some tree ∧
        (.name "requre_comment" ∈ TableLevel.action.keysAt tree.rootPart ∧
          .name "tagret" ∈ TableLevel.action.keysAt tree.rootPart ∧
          .name "ok_txt" ∈ TableLevel.confirm.keysAt tree.rootPart ∧
          .name "hiden" ∈ TableLevel.fieldPermission.keysAt tree.rootPart) ∧
        "requre_comment" ∉ TableLevel.action.fields ∧ "tagret" ∉ TableLevel.action.fields ∧
        "ok_txt" ∉ TableLevel.confirm.fields ∧ "hiden" ∉ TableLevel.fieldPermission.fields := by
  obtain ⟨tree, htree, hread, haction, hconfirm, hpermission⟩ := exists_tree_misspelt
  refine ⟨hread, tree, htree, ?_, by decide⟩
  rw [haction, hconfirm, hpermission]
  decide

end TableDocument

end ActionPolicy
