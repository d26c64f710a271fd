import ActionPolicy.Proofs.Resolve.StableOrder
import ActionPolicy.RuleTable.Builtin
import Mathlib.Data.List.Sort

/-!
# Extended tables

A table with further templates resolves to the items of the table and those of the further
templates, each as they are without the other ones, merged by priority.

## Main definitions

* `RuleTable.IsExtension` – a table has the templates of two other ones, one after another.

## Main statements

* `RuleTable.exists_alone` – the further templates are a table in their own right.
* `merge_filter_eq` – a sorted list is the merge of its two parts by a test.
* `PriorityTable.mem_items_extension` – the items of an extension are those of its two parts.
* `PriorityTable.resolve_extended` – each part is as it was, and the whole is their merge.

## Design notes

That a merge is stable, and takes ties from its first list, is how `List.merge` is made. So the
second part may only come first where its priority is strictly lower, which is the order of the
extension: there the codes of the table stand further up than all others.
-/

namespace ActionPolicy

/-! ### Parts of a table -/

/-- No fault is found in the last templates of a table, whatever its version. -/
theorem tableFault?_of_suffix {table : RuleTable} {front back : List Template}
    (h : table.templates = front ++ back) {version : String} (hversion : version ≠ "") :
    tableFault? version back = none := by
  have hsound := table.templatesFault?_eq_none
  rw [h, templatesFault?_eq_none_iff, List.map_append] at hsound
  obtain ⟨hall, hnodup⟩ := hsound
  rw [tableFault?, if_neg (by simpa using hversion), templatesFault?_eq_none_iff]
  exact ⟨fun t ht => hall t (List.mem_append_right front ht), (List.nodup_append.mp hnodup).2.1⟩

namespace RuleTable

theorem ofTemplates_eq_ok {version : String} {templates : List Template}
    (h : tableFault? version templates = none) :
    ofTemplates version templates = .ok ⟨version, templates, h⟩ := by
  unfold ofTemplates
  split
  · rename_i e he
    rw [h] at he
    contradiction
  · rfl

theorem templates_of_ofTemplates {version : String} {templates : List Template} {table : RuleTable}
    (h : ofTemplates version templates = .ok table) : table.templates = templates := by
  unfold ofTemplates at h
  split at h
  · contradiction
  · exact (Except.ok.inj h) ▸ rfl

/-- The templates of a table are those of a first one with those of a second one behind them. -/
def IsExtension (extension base added : RuleTable) : Prop :=
  extension.templates = base.templates ++ added.templates

/-- What a table can be extended with is a table in its own right. -/
theorem exists_alone {table extension : RuleTable} {custom : List Template}
    (h : table.extended custom = .ok extension) {version : String} (hversion : version ≠ "") :
    ∃ alone, ofTemplates version custom = .ok alone ∧ alone.codes = custom.map Template.code ∧
      extension.IsExtension table alone := by
  have htemplates := templates_of_ofTemplates h
  have hfault := tableFault?_of_suffix htemplates hversion
  exact ⟨_, ofTemplates_eq_ok hfault, rfl, htemplates⟩

variable {extension base added : RuleTable}

namespace IsExtension

theorem codes_eq (h : extension.IsExtension base added) :
    extension.codes = base.codes ++ added.codes := by
  rw [codes, h, List.map_append, codes, codes]

/-- No code of the further templates is one of the table. -/
theorem not_mem_codes (h : extension.IsExtension base added) {code : String}
    (hcode : code ∈ added.codes) : code ∉ base.codes := by
  have hnodup := extension.codes_nodup
  rw [h.codes_eq] at hnodup
  exact fun hbase => (List.nodup_append.mp hnodup).2.2 code hbase code hcode rfl

theorem position_base (h : extension.IsExtension base added) {code : String}
    (hcode : code ∈ base.codes) : extension.codes.idxOf code = base.codes.idxOf code := by
  rw [h.codes_eq, List.idxOf_append_of_mem hcode]

theorem position_added (h : extension.IsExtension base added) {code : String}
    (hcode : code ∉ base.codes) :
    extension.codes.idxOf code = base.codes.length + added.codes.idxOf code := by
  rw [h.codes_eq, List.idxOf_append_of_notMem hcode]

/-- The codes of the table stand further up than all others. -/
theorem position_lt (h : extension.IsExtension base added) {code other : String}
    (hcode : code ∈ base.codes) (hother : other ∉ base.codes) :
    extension.codes.idxOf code < extension.codes.idxOf other := by
  have hlt := List.idxOf_lt_length_of_mem hcode
  rw [h.position_base hcode, h.position_added hother]
  omega

end IsExtension

end RuleTable

/-! ### Merging -/

/-- A list in order is the merge of what passes a test and of what does not, if the former comes
first on ties. -/
theorem merge_filter_eq {α : Type} {le : α → α → Bool} (first : α → Bool) {l : List α}
    (hle : l.Pairwise fun a b => le a b = true)
    (hties : l.Pairwise fun a b => first a = false → first b = true → le b a = false) :
    (l.filter first).merge (l.filter fun a => !first a) le = l := by
  induction l with
  | nil => simp
  | cons a l ih =>
    obtain ⟨hle, hrest⟩ := List.pairwise_cons.mp hle
    obtain ⟨hties, hrest'⟩ := List.pairwise_cons.mp hties
    have ih := ih hrest hrest'
    -- The head of the list is the head of one of the two parts, and no later than the other one.
    cases ha : first a with
    | true =>
      rw [List.filter_cons_of_pos ha, List.filter_cons_of_neg (by simp [ha])]
      cases hback : l.filter fun b => !first b with
      | nil =>
        rw [hback, List.merge_right] at ih
        rw [List.merge_right, ih]
      | cons b back =>
        have hb : b ∈ l := List.mem_of_mem_filter (hback ▸ List.mem_cons_self)
        rw [hback] at ih
        rw [List.cons_merge_cons_pos le _ _ (hle b hb), ih]
    | false =>
      rw [List.filter_cons_of_neg (by simp [ha]), List.filter_cons_of_pos (by simp [ha])]
      cases hfront : l.filter first with
      | nil =>
        rw [hfront, List.nil_merge] at ih
        rw [List.nil_merge, ih]
      | cons b front =>
        obtain ⟨hb, hfirst⟩ := List.mem_filter.mp (hfront ▸ List.mem_cons_self : b ∈ l.filter first)
        rw [hfront] at ih
        rw [List.cons_merge_cons_neg le _ _ (by simp [hties b hb ha hfirst]), ih]

/-! ### Decisions -/

namespace PriorityTable

variable (p : PriorityTable) (ctx : Context) {extension base added : RuleTable}

theorem code_mem_of_mem_items {table : RuleTable} {item : DecisionItem}
    (h : item ∈ (p.resolve ctx table).items) : item.code ∈ table.codes := by
  obtain ⟨t, ht, -, hyields⟩ := (p.mem_items_iff ctx table).mp h
  exact List.mem_map.mpr ⟨t, ht, hyields.code_eq.symm⟩

/-- The items of an extension are those of its two parts. -/
theorem mem_items_extension (h : extension.IsExtension base added) {item : DecisionItem} :
    item ∈ (p.resolve ctx extension).items ↔
      item ∈ (p.resolve ctx base).items ∨ item ∈ (p.resolve ctx added).items := by
  rw [mem_items_iff, mem_items_iff, mem_items_iff, h]
  simp only [List.mem_append, or_and_right, exists_or]

/-- The items with codes of a part are the items of the part, if they are in the same order. -/
theorem filter_items_eq {part : RuleTable}
    (hmem : ∀ item, item ∈ (p.resolve ctx extension).items ∧ item.code ∈ part.codes ↔
      item ∈ (p.resolve ctx part).items)
    (horder : ∀ a b : DecisionItem, a.code ∈ part.codes → b.code ∈ part.codes →
      part.Precedes a b → extension.Precedes a b) :
    (p.resolve ctx extension).items.filter (fun item => part.codes.contains item.code) =
      (p.resolve ctx part).items := by
  have hleft := (p.pairwise_items ctx extension).filter fun item => part.codes.contains item.code
  have hright : (p.resolve ctx part).items.Pairwise extension.Precedes :=
    (p.pairwise_items ctx part).imp_of_mem fun ha hb hab =>
      horder _ _ (p.code_mem_of_mem_items ctx ha) (p.code_mem_of_mem_items ctx hb) hab
  refine hleft.eq_of_mem_iff hright fun item => ?_
  rw [List.mem_filter, List.contains_iff_mem, hmem]

theorem filter_items_base (h : extension.IsExtension base added) :
    (p.resolve ctx extension).items.filter (fun item => base.codes.contains item.code) =
      (p.resolve ctx base).items := by
  refine p.filter_items_eq ctx (fun item => ?_) fun a b ha hb hab => ?_
  · rw [p.mem_items_extension ctx h]
    constructor
    · rintro ⟨hbase | hadded, hcode⟩
      · exact hbase
      · exact absurd hcode (h.not_mem_codes (p.code_mem_of_mem_items ctx hadded))
    · exact fun hbase => ⟨.inl hbase, p.code_mem_of_mem_items ctx hbase⟩
  · rw [RuleTable.Precedes, h.position_base ha, h.position_base hb]
    exact hab

theorem filter_items_added (h : extension.IsExtension base added) :
    (p.resolve ctx extension).items.filter (fun item => added.codes.contains item.code) =
      (p.resolve ctx added).items := by
  refine p.filter_items_eq ctx (fun item => ?_) fun a b ha hb hab => ?_
  · rw [p.mem_items_extension ctx h]
    constructor
    · rintro ⟨hbase | hadded, hcode⟩
      · exact absurd (p.code_mem_of_mem_items ctx hbase) (h.not_mem_codes hcode)
      · exact hadded
    · exact fun hadded => ⟨.inr hadded, p.code_mem_of_mem_items ctx hadded⟩
  · rw [RuleTable.Precedes, h.position_added (h.not_mem_codes ha),
      h.position_added (h.not_mem_codes hb), Nat.add_lt_add_iff_left]
    exact hab

/-- The items of an extension are those of its two parts, merged by priority; on ties those of the
first part come first. -/
theorem merge_items (h : extension.IsExtension base added) :
    (p.resolve ctx base).items.merge (p.resolve ctx added).items
        (fun a b => decide (a.priority ≤ b.priority)) =
      (p.resolve ctx extension).items := by
  have horder := p.pairwise_items ctx extension
  have hother : (p.resolve ctx extension).items.filter (fun item => !base.codes.contains item.code) =
      (p.resolve ctx added).items := by
    rw [← p.filter_items_added ctx h]
    refine List.filter_congr fun item hitem => ?_
    rcases (p.mem_items_extension ctx h).mp hitem with hbase | hadded
    · have hcode := p.code_mem_of_mem_items ctx hbase
      have hnot : item.code ∉ added.codes := fun hadded => h.not_mem_codes hadded hcode
      simp [hcode, hnot]
    · have hcode := p.code_mem_of_mem_items ctx hadded
      simp [hcode, h.not_mem_codes hcode]
  rw [← p.filter_items_base ctx h, ← hother]
  refine merge_filter_eq _ (horder.imp fun hab => ?_) (horder.imp fun {a b} hab => ?_)
  · rcases hab with hlt | ⟨heq, -⟩
    · exact decide_eq_true (UInt32.le_of_lt hlt)
    · exact decide_eq_true (UInt32.le_of_eq heq)
  · -- An item of the table that comes behind one of the others does so by its priority alone.
    intro hfirst hsecond
    have hlt : a.priority < b.priority := by
      refine hab.resolve_right fun htie => Nat.lt_asymm htie.2 (h.position_lt ?_ ?_)
      · exact List.contains_iff_mem.mp hsecond
      · simpa using hfirst
    exact decide_eq_false (UInt32.not_le.mpr hlt)

/-- If a table can be extended by further templates, these make a table of any version. Of what the
extended table resolves to, the items with codes of the table are what it resolves to, and those
with codes of the further templates are what these resolve to. The whole is both, merged by
priority, and where priorities are equal the items of the table come first. -/
theorem resolve_extended {table extension : RuleTable} {custom : List Template}
    (h : table.extended custom = .ok extension) {version : String} (hversion : version ≠ "") :
    ∃ alone, RuleTable.ofTemplates version custom = .ok alone ∧
      ∀ (p : PriorityTable) (ctx : Context),
        let items := (p.resolve ctx extension).items
        items.filter (fun item => table.codes.contains item.code) = (p.resolve ctx table).items ∧
          items.filter (fun item => (custom.map Template.code).contains item.code) =
            (p.resolve ctx alone).items ∧
          items = (p.resolve ctx table).items.merge (p.resolve ctx alone).items
            fun a b => decide (a.priority ≤ b.priority) := by
  obtain ⟨alone, halone, hcodes, hextension⟩ := RuleTable.exists_alone h hversion
  refine ⟨alone, halone, fun p ctx => ⟨p.filter_items_base ctx hextension, ?_, ?_⟩⟩
  · rw [← hcodes]
    exact p.filter_items_added ctx hextension
  · exact (p.merge_items ctx hextension).symm

/-- Two actions of the desktop client, with the ranks 1 and 20. -/
def reviewTable : RuleTable :=
  ⟨"1", [.ofAction "view_history" (.ofLabel "History"), .ofAction "approve" (.ofLabel "Approve")],
    by decide⟩

/-- An action with the rank of another one, and one before all others. -/
def reviewExtras : List Template :=
  [{ Template.ofAction "export" (.ofLabel "Export") with priority := some 20 },
    { Template.ofAction "escalate" (.ofLabel "Escalate") with priority := some 0 }]

def extendedReviewTable : RuleTable := ⟨"1", reviewTable.templates ++ reviewExtras, by decide⟩

theorem resolve_extended_reviewTable :
    reviewTable.extended reviewExtras = .ok extendedReviewTable ∧ "extras" ≠ "" ∧
      ∃ alone, RuleTable.ofTemplates "extras" reviewExtras = .ok alone ∧
        ∀ (p : PriorityTable) (ctx : Context),
          let items := (p.resolve ctx extendedReviewTable).items
          items.filter (fun item => reviewTable.codes.contains item.code) =
              (p.resolve ctx reviewTable).items ∧
            items.filter (fun item => (reviewExtras.map Template.code).contains item.code) =
              (p.resolve ctx alone).items ∧
            items = (p.resolve ctx reviewTable).items.merge (p.resolve ctx alone).items
              fun a b => decide (a.priority ≤ b.priority) := by
  have h : reviewTable.extended reviewExtras = .ok extendedReviewTable :=
    RuleTable.ofTemplates_eq_ok extendedReviewTable.sound
  have hversion : "extras" ≠ "" := by decide
  exact ⟨h, hversion, resolve_extended h hversion⟩

end PriorityTable

end ActionPolicy
