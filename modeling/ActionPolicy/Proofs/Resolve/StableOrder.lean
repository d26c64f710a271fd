import ActionPolicy.Proofs.RuleTable.Sound
import ActionPolicy.Resolve
import Mathlib.Data.List.Forall2

/-!
# The items of a decision

A decision holds one item for each template that is offered in the context, and no other. Items are
in the order of their priorities, and those of equal priority in the order of the table.

## Main definitions

* `Conditions.Admits` – a context meets conditions, dimension by dimension.
* `Template.Offered` – a template applies and does not lack its target.
* `Template.Yields` – the item that a template yields.
* `RuleTable.Precedes` – the order of items: by priority, then by position in the table.

## Main statements

* `Conditions.metBy_iff`, `Template.item?_eq_some_iff` – the tests are those of the definitions
  above.
* `pairwise_mergeSort_stable` – a sort by a rank keeps the order of what ranks alike.
* `PriorityTable.mem_items_iff` – what is resolved, told by membership alone.
* `PriorityTable.resolve_exact` – what is resolved, and in which order.
-/

namespace ActionPolicy

/-! ### What is offered -/

/-- A context meets conditions: its status is allowed, and so is every other fact that it has and
that the conditions restrict. Of the roles, one has to be among those asked for. -/
structure Conditions.Admits (c : Conditions) (ctx : Context) : Prop where
  /-- The status is allowed. -/
  status : ∀ allowed, c.status = some allowed → ctx.status ∈ allowed
  /-- The kind of node, if it is known, is allowed. -/
  nodeType : ∀ allowed fact, c.nodeTypes = some allowed → ctx.nodeType = some fact → fact ∈ allowed
  /-- One of the user's roles, if they are known, is asked for. -/
  roles : ∀ allowed held, c.roles = some allowed → ctx.roles = some held → ∃ r ∈ allowed, r ∈ held
  /-- The kind of form, if it is known, is allowed. -/
  formType : ∀ allowed fact, c.formTypes = some allowed → ctx.formType = some fact → fact ∈ allowed

namespace Conditions

theorem allowsStatus_iff {c : Conditions} {status : String} :
    c.allowsStatus status = true ↔ ∀ allowed, c.status = some allowed → status ∈ allowed := by
  unfold allowsStatus
  cases c.status <;> simp

theorem allowsFact_iff {allowed : Option (List String)} {fact : Option String} :
    allowsFact allowed fact = true ↔
      ∀ values v, allowed = some values → fact = some v → v ∈ values := by
  unfold allowsFact
  cases allowed <;> cases fact <;> simp

theorem allowsRoles_iff {c : Conditions} {ctx : Context} :
    c.allowsRoles ctx = true ↔
      ∀ allowed held, c.roles = some allowed → ctx.roles = some held → ∃ r ∈ allowed, r ∈ held := by
  unfold allowsRoles Context.hasAnyRole
  cases c.roles <;> cases ctx.roles <;> simp

theorem metBy_iff {c : Conditions} {ctx : Context} : c.metBy ctx = true ↔ c.Admits ctx := by
  rw [metBy, Bool.and_eq_true, Bool.and_eq_true, Bool.and_eq_true, allowsStatus_iff, allowsFact_iff,
    allowsRoles_iff, allowsFact_iff]
  constructor
  · rintro ⟨⟨⟨hstatus, hnode⟩, hroles⟩, hform⟩
    exact ⟨hstatus, hnode, hroles, hform⟩
  · rintro ⟨hstatus, hnode, hroles, hform⟩
    exact ⟨⟨⟨hstatus, hnode⟩, hroles⟩, hform⟩

end Conditions

/-- The identifier that a context has for a target. -/
def Context.idOf (ctx : Context) : Target → Option String
  | .task => ctx.taskId
  | .processInstance => ctx.processInstanceId

theorem Target.lookup_eq_some_iff {target : Target} {ctx : Context} {id : String} :
    target.lookup ctx = some id ↔ ctx.idOf target = some id ∧ id ≠ "" := by
  unfold lookup
  cases target <;> simp [Context.idOf, Option.filter_eq_some_iff]

/-- The action of a rule under a code and a priority, on a target; it can be pressed and is
shown. -/
def ActionSpec.on (spec : ActionSpec) (code : String) (priority : Priority)
    (target : Option ResolvedTarget) : ActionItem where
  code := code
  priority := priority
  label := spec.label
  style := spec.style
  icon := spec.icon
  auth := spec.auth
  requireComment := spec.requireComment
  confirm := spec.confirm
  className := spec.className
  target := target
  enabled := true
  visible := true

theorem ActionSpec.item?_eq (spec : ActionSpec) (code : String) (priority : Priority)
    (ctx : Context) :
    spec.item? code priority ctx = match spec.target with
      | none => some (spec.on code priority none)
      | some kind => (kind.lookup ctx).map fun id => spec.on code priority (some ⟨kind, id⟩) := by
  unfold item?
  cases spec.target with
  | none => rfl
  | some kind => cases hid : kind.lookup ctx <;> simp [hid, on]

/-- The effective priority of a template: the explicit one, else the rank of its code, else that of
unranked templates. -/
def PriorityTable.effective (p : PriorityTable) (t : Template) : Priority :=
  match t.priority, p.ranks.lookup t.code with
  | some explicit, _ => explicit
  | none, some rank => rank
  | none, none => unranked

theorem PriorityTable.priorityOf_eq (p : PriorityTable) (t : Template) :
    p.priorityOf t = p.effective t := by
  unfold priorityOf rank effective
  cases t.priority <;> cases p.ranks.lookup t.code <;> rfl

namespace Template

/-- A template is an action with a declared target of which the context has no identifier, or an
empty one. -/
def LacksTarget (t : Template) (ctx : Context) : Prop :=
  ∃ spec kind, t.payload = .action spec ∧ spec.target = some kind ∧
    (ctx.idOf kind = none ∨ ctx.idOf kind = some "")

/-- A template has an item in a context: it applies, and if it is an action, it does not lack its
target. -/
def Offered (t : Template) (ctx : Context) : Prop :=
  t.conditions.Admits ctx ∧ ¬t.LacksTarget ctx

/-- The item that a template yields in a context: code and payload of the template, its effective
priority, and for a declared target the identifier that the context has. -/
inductive Yields (p : PriorityTable) (ctx : Context) (t : Template) : DecisionItem → Prop where
  | untargeted {spec : ActionSpec} (hpayload : t.payload = .action spec)
      (htarget : spec.target = none) :
      Yields p ctx t (.action (spec.on t.code (p.effective t) none))
  | targeted {spec : ActionSpec} {kind : Target} {id : String}
      (hpayload : t.payload = .action spec) (htarget : spec.target = some kind)
      (hid : ctx.idOf kind = some id) (hne : id ≠ "") :
      Yields p ctx t (.action (spec.on t.code (p.effective t) (some ⟨kind, id⟩)))
  | fieldPermission {spec : FieldPermissionSpec} (hpayload : t.payload = .fieldPermission spec) :
      Yields p ctx t (.fieldPermission
        { code := t.code, priority := p.effective t, editable := spec.editable
          readonly := spec.readonly, hidden := spec.hidden, required := spec.required })

theorem Yields.code_eq {p : PriorityTable} {ctx : Context} {t : Template} {item : DecisionItem}
    (h : t.Yields p ctx item) : item.code = t.code := by
  cases h <;> rfl

theorem Yields.priority_eq {p : PriorityTable} {ctx : Context} {t : Template} {item : DecisionItem}
    (h : t.Yields p ctx item) : item.priority = p.effective t := by
  cases h <;> rfl

/-- The item at the effective priority is the one that the template yields. -/
theorem item?_eq_some_iff {p : PriorityTable} {ctx : Context} {t : Template}
    {item : DecisionItem} : t.item? (p.effective t) ctx = some item ↔ t.Yields p ctx item := by
  unfold item?
  cases hpayload : t.payload with
  | fieldPermission spec =>
    constructor
    · intro h
      cases h
      exact .fieldPermission hpayload
    · intro h
      cases h <;> simp_all [FieldPermissionSpec.item]
  | action spec =>
    simp only [ActionSpec.item?_eq, Option.map_eq_some_iff]
    constructor
    · rintro ⟨a, ha, rfl⟩
      cases htarget : spec.target with
      | none =>
        rw [htarget] at ha
        cases ha
        exact .untargeted hpayload htarget
      | some kind =>
        rw [htarget] at ha
        obtain ⟨id, hid, rfl⟩ := Option.map_eq_some_iff.1 ha
        obtain ⟨hknown, hne⟩ := Target.lookup_eq_some_iff.1 hid
        exact .targeted hpayload htarget hknown hne
    · intro h
      cases h with
      | untargeted hp htarget =>
        cases hpayload.symm.trans hp
        exact ⟨_, by rw [htarget], rfl⟩
      | targeted hp htarget hid hne =>
        cases hpayload.symm.trans hp
        refine ⟨_, ?_, rfl⟩
        simp only [htarget, Target.lookup_eq_some_iff.2 ⟨hid, hne⟩, Option.map_some]
      | fieldPermission hp => cases hpayload.symm.trans hp

/-- A template that applies has an item exactly if it does not lack its target. -/
theorem exists_yields_iff {p : PriorityTable} {ctx : Context} {t : Template} :
    (∃ item, t.Yields p ctx item) ↔ ¬t.LacksTarget ctx := by
  constructor
  · rintro ⟨item, h⟩ ⟨spec, kind, hpayload, htarget, hid⟩
    cases h <;> simp_all
  · intro h
    cases hpayload : t.payload with
    | fieldPermission spec => exact ⟨_, .fieldPermission hpayload⟩
    | action spec =>
      cases htarget : spec.target with
      | none => exact ⟨_, .untargeted hpayload htarget⟩
      | some kind =>
        cases hid : ctx.idOf kind with
        | none => exact absurd ⟨spec, kind, hpayload, htarget, .inl hid⟩ h
        | some id =>
          by_cases hne : id = ""
          · exact absurd ⟨spec, kind, hpayload, htarget, .inr (hne ▸ hid)⟩ h
          · exact ⟨_, .targeted hpayload htarget hid hne⟩

end Template

/-! ### Stable sorting -/

/-- A sort by a rank puts the lower rank first and keeps the order of what ranks alike. -/
theorem pairwise_mergeSort_stable {α : Type} (rank : α → Priority) {before : α → α → Prop}
    {l : List α} (h : l.Pairwise before) :
    (l.mergeSort fun a b => decide (rank a ≤ rank b)).Pairwise fun a b =>
      rank a < rank b ∨ rank a = rank b ∧ before a b := by
  have htrans : ∀ a b c : α, decide (rank a ≤ rank b) = true → decide (rank b ≤ rank c) = true →
      decide (rank a ≤ rank c) = true := by
    intro a b c hab hbc
    rw [decide_eq_true_eq] at *
    exact UInt32.le_trans hab hbc
  have htotal : ∀ a b : α, (decide (rank a ≤ rank b) || decide (rank b ≤ rank a)) = true := by
    intro a b
    rw [Bool.or_eq_true, decide_eq_true_eq, decide_eq_true_eq]
    exact UInt32.le_total _ _
  induction l with
  | nil => simp
  | cons a l ih =>
    rw [List.pairwise_cons] at h
    obtain ⟨front, rest, hsort, hsort', hfront⟩ := List.mergeSort_cons htrans htotal a l
    have hsorted := List.pairwise_mergeSort htrans htotal (a :: l)
    have hmem : ∀ b ∈ rest, b ∈ l := fun b hb =>
      List.mem_mergeSort.1 (hsort' ▸ List.mem_append_right front hb)
    have hih := ih h.2
    rw [hsort'] at hih
    rw [hsort] at hsorted ⊢
    obtain ⟨hfrontPair, hrestPair, hcross⟩ := List.pairwise_append.1 hih
    refine List.pairwise_append.2 ⟨hfrontPair, List.pairwise_cons.2 ⟨?_, hrestPair⟩, ?_⟩
    · -- what comes behind `a` came behind it before, and does not rank lower
      intro b hb
      have hle : rank a ≤ rank b :=
        of_decide_eq_true ((List.pairwise_cons.1 (List.pairwise_append.1 hsorted).2.1).1 b hb)
      rcases UInt32.lt_or_eq_of_le hle with hlt | heq
      · exact .inl hlt
      · exact .inr ⟨heq, h.1 b (hmem b hb)⟩
    · intro b hb c hc
      rcases List.mem_cons.1 hc with rfl | hc
      · have hnot : ¬rank c ≤ rank b := by simpa using hfront b hb
        exact .inl (UInt32.not_le.1 hnot)
      · exact hcross b hb c hc

/-! ### Decisions -/

/-- An item comes before another one: its priority is lower, or it is the same and its code stands
further up in the table. -/
def RuleTable.Precedes (table : RuleTable) (a b : DecisionItem) : Prop :=
  a.priority < b.priority ∨
    a.priority = b.priority ∧ table.codes.idxOf a.code < table.codes.idxOf b.code

theorem RuleTable.Precedes.asymm {table : RuleTable} {a b : DecisionItem}
    (h : table.Precedes a b) : ¬table.Precedes b a := by
  rintro (hlt | ⟨heq, hposition⟩)
  · rcases h with h | ⟨h, -⟩
    · exact UInt32.lt_asymm h hlt
    · exact UInt32.lt_irrefl _ (h ▸ hlt)
  · rcases h with h | ⟨-, h⟩
    · exact UInt32.lt_irrefl _ (heq ▸ h)
    · exact Nat.lt_asymm h hposition

instance (table : RuleTable) : Std.Asymm table.Precedes := ⟨fun _ _ => RuleTable.Precedes.asymm⟩

theorem RuleTable.pairwise_position (table : RuleTable) :
    table.templates.Pairwise fun t u => table.codes.idxOf t.code < table.codes.idxOf u.code := by
  rw [List.pairwise_iff_getElem]
  intro i j hi hj hij
  have hposition : ∀ n (hn : n < table.templates.length),
      table.codes.idxOf table.templates[n].code = n := by
    intro n hn
    have hlength : n < table.codes.length := by simpa [codes] using hn
    have hcode : table.codes[n] = table.templates[n].code := by simp [codes]
    rw [← hcode]
    exact table.codes_nodup.idxOf_getElem _ _
  rw [hposition i hi, hposition j hj]
  exact hij

namespace PriorityTable

/-- The templates that apply in a context, in the order of their effective priorities. -/
def applying (p : PriorityTable) (ctx : Context) (table : RuleTable) : List Template :=
  (table.templates.filter fun t => t.appliesTo ctx).mergeSort fun t u =>
    decide (p.effective t ≤ p.effective u)

variable (p : PriorityTable) (ctx : Context) (table : RuleTable)

theorem mem_applying {t : Template} :
    t ∈ p.applying ctx table ↔ t ∈ table.templates ∧ t.conditions.Admits ctx := by
  rw [applying, List.mem_mergeSort, List.mem_filter, Template.appliesTo, Conditions.metBy_iff]

theorem pairwise_applying :
    (p.applying ctx table).Pairwise fun t u => p.effective t < p.effective u ∨
      p.effective t = p.effective u ∧ table.codes.idxOf t.code < table.codes.idxOf u.code :=
  pairwise_mergeSort_stable p.effective (table.pairwise_position.sublist List.filter_sublist)

theorem nodup_codes_applying : ((p.applying ctx table).map Template.code).Nodup := by
  have hperm := (List.mergeSort_perm (table.templates.filter fun t => t.appliesTo ctx)
    fun t u => decide (p.effective t ≤ p.effective u)).map Template.code
  exact hperm.nodup_iff.2 (table.codes_nodup.sublist (List.filter_sublist.map _))

/-- The items are those of the applying templates, in their order. -/
theorem items_resolve : (p.resolve ctx table).items =
    (p.applying ctx table).filterMap fun t => t.item? (p.effective t) ctx := by
  have hranked : p.ranked (table.templates.filter fun t => t.appliesTo ctx) =
      (p.applying ctx table).map fun t => (p.effective t, t) := by
    rw [ranked, applying, List.map_mergeSort (f := fun t => (p.effective t, t))
      (s := fun a b => decide (a.1 ≤ b.1)) fun _ _ _ _ => rfl]
    simp only [priorityOf_eq]
  rw [resolve, hranked, List.filterMap_map]
  rfl

/-- Where a function has values, it has them one for one. -/
theorem forall₂_filterMap {α β : Type} (f : α → Option β) (l : List α) :
    List.Forall₂ (fun a b => f a = some b) (l.filter fun a => (f a).isSome) (l.filterMap f) := by
  induction l with
  | nil => exact .nil
  | cons a l ih =>
    cases ha : f a with
    | none => simpa [List.filter_cons, List.filterMap_cons, ha] using ih
    | some b =>
      rw [List.filter_cons_of_pos (by simp [ha]), List.filterMap_cons_some ha]
      exact .cons ha ih

/-- The items correspond one to one to the templates offered in the context. -/
theorem exists_offered : ∃ offered : List Template, offered.Nodup ∧
    (∀ t, t ∈ offered ↔ t ∈ table.templates ∧ t.Offered ctx) ∧
    List.Forall₂ (fun t item => t.Yields p ctx item) offered (p.resolve ctx table).items := by
  have hitems := forall₂_filterMap (fun t => t.item? (p.effective t) ctx) (p.applying ctx table)
  rw [← items_resolve] at hitems
  refine ⟨_, ?_, fun t => ?_, hitems.imp fun _ _ => Template.item?_eq_some_iff.1⟩
  · exact (List.Nodup.of_map _ (p.nodup_codes_applying ctx table)).filter _
  · rw [List.mem_filter, mem_applying, Template.Offered, and_assoc,
      ← Template.exists_yields_iff (p := p), Option.isSome_iff_exists]
    simp only [Template.item?_eq_some_iff]

/-- An item comes from a template of the table. -/
theorem exists_template_of_mem {item : DecisionItem} (h : item ∈ (p.resolve ctx table).items) :
    ∃ t ∈ p.applying ctx table, t.Yields p ctx item := by
  rw [items_resolve, List.mem_filterMap] at h
  obtain ⟨t, ht, hitem⟩ := h
  exact ⟨t, ht, Template.item?_eq_some_iff.1 hitem⟩

/-- The items are what those templates of the table yield that apply in the context. -/
theorem mem_items_iff {item : DecisionItem} : item ∈ (p.resolve ctx table).items ↔
    ∃ t ∈ table.templates, t.conditions.Admits ctx ∧ t.Yields p ctx item := by
  simp only [items_resolve, List.mem_filterMap, mem_applying, Template.item?_eq_some_iff, and_assoc]

theorem nodup_codes_items : ((p.resolve ctx table).items.map DecisionItem.code).Nodup := by
  have hcodes : (p.applying ctx table).Pairwise fun t u => t.code ≠ u.code :=
    List.pairwise_map.1 (p.nodup_codes_applying ctx table)
  rw [items_resolve, List.nodup_iff_pairwise_ne, List.pairwise_map, List.pairwise_filterMap]
  refine hcodes.imp fun {t u} hne a ha b hb => ?_
  rw [(Template.item?_eq_some_iff.1 ha).code_eq, (Template.item?_eq_some_iff.1 hb).code_eq]
  exact hne

theorem pairwise_items : (p.resolve ctx table).items.Pairwise table.Precedes := by
  rw [items_resolve, List.pairwise_filterMap]
  refine (p.pairwise_applying ctx table).imp fun {t u} hlt a ha b hb => ?_
  have hyieldsA := Template.item?_eq_some_iff.1 ha
  have hyieldsB := Template.item?_eq_some_iff.1 hb
  rw [RuleTable.Precedes, hyieldsA.code_eq, hyieldsB.code_eq, hyieldsA.priority_eq,
    hyieldsB.priority_eq]
  exact hlt

/-- The effective priority of an item is that of the template with its code. -/
theorem priority_of_mem {item : DecisionItem} (h : item ∈ (p.resolve ctx table).items)
    {t : Template} (ht : t ∈ table.templates) (hcode : t.code = item.code) :
    item.priority = p.effective t := by
  obtain ⟨u, hu, hyields⟩ := p.exists_template_of_mem ctx table h
  have hu' := ((p.mem_applying ctx table).1 hu).1
  rw [hyields.priority_eq, table.eq_of_code_eq ht hu' (hcode.trans hyields.code_eq)]

/-- An explicit priority comes before that of a template without explicit priority and rank. -/
theorem effective_lt_of_explicit {t u : Template} (ht : t ∈ table.templates)
    (hexplicit : t.priority ≠ none) (hnone : u.priority = none)
    (hrank : p.ranks.lookup u.code = none) : p.effective t < p.effective u := by
  obtain ⟨n, hn⟩ := Option.ne_none_iff_exists'.1 hexplicit
  have hreserved : n ≠ unranked := fun he => (table.wellFormed ht).priority (he ▸ hn)
  have hleft : p.effective t = n := by rw [effective, hn]
  have hright : p.effective u = unranked := by rw [effective, hnone, hrank]
  rw [hleft, hright]
  have hgreatest : n ≤ unranked := UInt32.le_iff_toNat_le.2 (Nat.le_of_lt_succ n.toNat_lt)
  exact UInt32.lt_of_le_of_ne hgreatest hreserved

/-- A decision holds one item for each template of the table that is offered in the context, with
what the template yields there, and no other. No code repeats. The items are in the order of their
effective priorities, and those of equal priority in the order of the table, so an item with an
explicit priority comes before every item that is neither prioritised nor ranked. -/
theorem resolve_exact :
    let items := (p.resolve ctx table).items
    (∃ offered : List Template, offered.Nodup ∧
        (∀ t, t ∈ offered ↔ t ∈ table.templates ∧ t.Offered ctx) ∧
        List.Forall₂ (fun t item => t.Yields p ctx item) offered items) ∧
      (items.map DecisionItem.code).Nodup ∧
      items.Pairwise table.Precedes ∧
      ∀ (i j : Nat) (a b : DecisionItem), items[i]? = some a → items[j]? = some b →
        ∀ t ∈ table.templates, t.code = a.code → t.priority ≠ none →
        ∀ u ∈ table.templates, u.code = b.code → u.priority = none →
          p.ranks.lookup u.code = none → i < j := by
  intro items
  refine ⟨p.exists_offered ctx table, p.nodup_codes_items ctx table, p.pairwise_items ctx table, ?_⟩
  intro i j a b ha hb t ht hta hexplicit u hu hub hnone hrank
  have hlt : a.priority < b.priority := by
    rw [p.priority_of_mem ctx table (List.mem_of_getElem? ha) ht hta,
      p.priority_of_mem ctx table (List.mem_of_getElem? hb) hu hub]
    exact p.effective_lt_of_explicit table ht hexplicit hnone hrank
  by_contra hij
  obtain ⟨hi, rfl⟩ := List.getElem?_eq_some_iff.1 ha
  obtain ⟨hj, rfl⟩ := List.getElem?_eq_some_iff.1 hb
  rcases Nat.lt_or_eq_of_le (Nat.le_of_not_lt hij) with hji | rfl
  · -- the later of the two items would rank lower than the earlier one
    have hle := List.pairwise_iff_getElem.1 (p.pairwise_items ctx table) j i hj hi hji
    rcases hle with hle | ⟨heq, -⟩
    · exact UInt32.lt_asymm hlt hle
    · exact UInt32.lt_irrefl _ (heq ▸ hlt)
  · exact UInt32.lt_irrefl _ hlt

end PriorityTable

end ActionPolicy
