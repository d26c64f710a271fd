import ActionPolicy.Proofs.KeyedList
import ActionPolicy.Proofs.Resolve.StableOrder
import ActionPolicy.RuleTable.Builtin
import Mathlib.Data.List.Sort

/-!
# Looser rules and wider contexts

Loosening the conditions of templates takes nothing away from a decision. Neither does it if the
context says less of node and form, names more roles, or names a target that it did not name before.

## Main definitions

* `Conditions.LoosensTo`, `Template.LoosensTo` – the second one allows whatever the first one
  allows.
* `Context.WidensTo` – what meets conditions in the first context meets them in the second one.

## Main statements

* `Conditions.Admits.loosen` – looser conditions are met in a wider context.
* `Template.Yields.loosen` – a template with looser conditions yields the same item there.
* `PriorityTable.items_sublist_of_loosensTo` – so the items stay, in the same order.

## Design notes

The status is compared in every context, so it has to be the same. An absent fact meets any
condition on it, and so do roles of which nothing is said; an empty list of roles meets none. A
target without an identifier, or with an empty one, is the only thing that drops an item later on,
so a wider context may have another identifier only in such a place.
-/

namespace ActionPolicy

/-! ### Loosening -/

/-- The second list of allowed values allows what the first one does; no list allows every value. -/
def AllowsMore (allowed looser : Option (List String)) : Prop :=
  ∀ values, looser = some values → ∃ fewer, allowed = some fewer ∧ fewer ⊆ values

/-- Some dimensions are not restricted any more, or allow more values. -/
structure Conditions.LoosensTo (c c' : Conditions) : Prop where
  status : AllowsMore c.status c'.status
  nodeTypes : AllowsMore c.nodeTypes c'.nodeTypes
  roles : AllowsMore c.roles c'.roles
  formTypes : AllowsMore c.formTypes c'.formTypes

/-- The templates differ at most in their conditions, and those of the second one are looser. -/
structure Template.LoosensTo (t t' : Template) : Prop where
  code : t'.code = t.code
  priority : t'.priority = t.priority
  conditions : t.conditions.LoosensTo t'.conditions
  /-- What is offered is the same. -/
  payload : t'.payload = t.payload

/-- The second context has the same status, says no more of node and form, says nothing of roles or
has all roles of the first one and perhaps others, and has the same identifiers, except that it may
have any where the first one has none or an empty one. -/
structure Context.WidensTo (ctx ctx' : Context) : Prop where
  status : ctx'.status = ctx.status
  nodeType : ctx'.nodeType = ctx.nodeType ∨ ctx'.nodeType = none
  formType : ctx'.formType = ctx.formType ∨ ctx'.formType = none
  roles : ctx'.roles = none ∨
    ∃ held more, ctx.roles = some held ∧ ctx'.roles = some more ∧ held ⊆ more
  taskId : ctx.taskId = none ∨ ctx.taskId = some "" ∨ ctx'.taskId = ctx.taskId
  processInstanceId : ctx.processInstanceId = none ∨ ctx.processInstanceId = some "" ∨
    ctx'.processInstanceId = ctx.processInstanceId

variable {ctx ctx' : Context}

/-- An identifier that the first context has is the second one's as well. -/
theorem Context.WidensTo.idOf_eq (h : ctx.WidensTo ctx') {kind : Target} {id : String}
    (hid : ctx.idOf kind = some id) (hne : id ≠ "") : ctx'.idOf kind = some id := by
  -- Both kinds are alike, so the rest is said of whichever identifier is meant.
  have hkept : ctx.idOf kind = none ∨ ctx.idOf kind = some "" ∨ ctx'.idOf kind = ctx.idOf kind := by
    cases kind with
    | task => exact h.taskId
    | processInstance => exact h.processInstanceId
  rcases hkept with hnone | hempty | hsame
  · rw [hnone] at hid
    contradiction
  · rw [hempty] at hid
    exact absurd (Option.some.inj hid).symm hne
  · exact hsame.trans hid

/-- A fact that is no other than before, or is not known any more, is allowed as before. -/
theorem mem_of_allowsMore {allowed looser : Option (List String)} {fact fact' : Option String}
    (hfact : fact' = fact ∨ fact' = none) (hmore : AllowsMore allowed looser)
    (h : ∀ values v, allowed = some values → fact = some v → v ∈ values) :
    ∀ values v, looser = some values → fact' = some v → v ∈ values := by
  intro values v hvalues hv
  obtain ⟨fewer, hfewer, hsubset⟩ := hmore values hvalues
  rcases hfact with hsame | hnone
  · exact hsubset (h fewer v hfewer (hsame ▸ hv))
  · rw [hnone] at hv
    contradiction

/-- Looser conditions are met in a wider context. -/
theorem Conditions.Admits.loosen {c c' : Conditions} (h : c.Admits ctx) (hc : c.LoosensTo c')
    (hctx : ctx.WidensTo ctx') : c'.Admits ctx' where
  status allowed hallowed := by
    obtain ⟨fewer, hfewer, hsubset⟩ := hc.status allowed hallowed
    exact hctx.status ▸ hsubset (h.status fewer hfewer)
  nodeType := mem_of_allowsMore hctx.nodeType hc.nodeTypes h.nodeType
  roles allowed held hallowed hheld := by
    obtain ⟨fewer, hfewer, hsubset⟩ := hc.roles allowed hallowed
    rcases hctx.roles with hnone | ⟨before, more, hbefore, hmore, hroles⟩
    · rw [hnone] at hheld
      contradiction
    · obtain ⟨r, hasked, hhad⟩ := h.roles fewer before hfewer hbefore
      obtain rfl : more = held := Option.some.inj (hmore.symm.trans hheld)
      exact ⟨r, hsubset hasked, hroles hhad⟩
  formType := mem_of_allowsMore hctx.formType hc.formTypes h.formType

/-- Priority and payload are the same, and so is the target, so the item is. -/
theorem Template.Yields.loosen {p : PriorityTable} {t t' : Template} {item : DecisionItem}
    (h : t.Yields p ctx item) (ht : t.LoosensTo t') (hctx : ctx.WidensTo ctx') :
    t'.Yields p ctx' item := by
  have heffective : p.effective t' = p.effective t := by
    rw [PriorityTable.effective, PriorityTable.effective, ht.priority, ht.code]
  cases h with
  | untargeted hpayload htarget =>
    rw [← heffective, ← ht.code]
    exact .untargeted (ht.payload.trans hpayload) htarget
  | targeted hpayload htarget hid hne =>
    rw [← heffective, ← ht.code]
    exact .targeted (ht.payload.trans hpayload) htarget (hctx.idOf_eq hid hne) hne
  | fieldPermission hpayload =>
    rw [← heffective, ← ht.code]
    exact .fieldPermission (ht.payload.trans hpayload)

/-! ### Decisions -/

namespace PriorityTable

/-- Two decisions are ordered alike if their tables list the same codes. So if the items of one are
among those of the other, they are there in the same order. -/
theorem items_sublist_of_subset (p : PriorityTable) {table table' : RuleTable}
    (hcodes : table'.codes = table.codes)
    (hsubset : (p.resolve ctx table).items ⊆ (p.resolve ctx' table').items) :
    (p.resolve ctx table).items.Sublist (p.resolve ctx' table').items := by
  have horder : table'.Precedes = table.Precedes := by
    funext a b
    rw [RuleTable.Precedes, RuleTable.Precedes, hcodes]
  have hleft := p.pairwise_items ctx table
  have hright := p.pairwise_items ctx' table'
  rw [horder] at hright
  exact List.sublist_of_subperm_of_pairwise (List.subperm_of_subset hleft.nodup hsubset) hleft hright

/-- If the templates of a table are loosened and the context is widened, every item of the decision
stays, and the items keep their order. -/
theorem items_sublist_of_loosensTo (p : PriorityTable) {table table' : RuleTable}
    (htable : List.Forall₂ Template.LoosensTo table.templates table'.templates)
    (hctx : ctx.WidensTo ctx') :
    (p.resolve ctx table).items.Sublist (p.resolve ctx' table').items := by
  have hcodes : List.Forall₂ (· = ·) table.codes table'.codes := by
    rw [RuleTable.codes, RuleTable.codes, List.forall₂_map_left_iff, List.forall₂_map_right_iff]
    exact htable.imp fun _ _ h => h.code.symm
  rw [List.forall₂_eq_eq_eq] at hcodes
  refine p.items_sublist_of_subset hcodes.symm fun item hitem => ?_
  obtain ⟨t, ht, hadmits, hyields⟩ := (p.mem_items_iff ctx table).mp hitem
  obtain ⟨t', ht', hloosens⟩ := exists_of_mem_of_forall₂ htable ht
  exact (p.mem_items_iff ctx' table').mpr
    ⟨t', ht', hadmits.loosen hloosens.conditions hctx, hyields.loosen hloosens hctx⟩

/-- Clerks may claim pending tasks at a user task. -/
def claimByClerk : Template :=
  Profile.offer "claim"
    { Profile.atTask ["userTask"] ["PENDING"] with roles := some ["clerk"] } (.ofLabel "Claim")

/-- Whoever is not known to be neither clerk nor manager may, wherever the task is. -/
def claimByStaff : Template :=
  Profile.offer "claim"
    { Profile.inStatus ["PENDING", "CLAIMED"] with roles := some ["manager", "clerk"] }
    (.ofLabel "Claim")

/-- A process instance may be suspended if it is known. -/
def suspendProcess : Template :=
  .ofAction "suspend" { ActionSpec.ofLabel "Suspend" with target := some .processInstance }

def clerkTable : RuleTable := ⟨"1", [suspendProcess, claimByClerk], by decide⟩

def staffTable : RuleTable := ⟨"2", [suspendProcess, claimByStaff], by decide⟩

/-- A clerk at a user task, whose process instance has no identifier. -/
def clerkAtTask : Context :=
  { Context.ofStatus "PENDING" with
    nodeType := some "userTask", roles := some ["clerk"], processInstanceId := some "" }

/-- A clerk who is an auditor, too, at a node of which nothing is said. -/
def auditorOfProcess : Context :=
  { Context.ofStatus "PENDING" with
    roles := some ["auditor", "clerk"], processInstanceId := some "P1" }

theorem items_sublist_staffTable :
    List.Forall₂ Template.LoosensTo clerkTable.templates staffTable.templates ∧
      clerkAtTask.WidensTo auditorOfProcess ∧
      (desktop.resolve clerkAtTask clerkTable).items.Sublist
        (desktop.resolve auditorOfProcess staffTable).items := by
  have hunrestricted : ∀ allowed, AllowsMore allowed none := fun _ _ h => by contradiction
  have hmore : ∀ {values fewer : List String}, fewer ⊆ values →
      AllowsMore (some fewer) (some values) := by
    intro values fewer hsubset _ heq
    exact ⟨fewer, rfl, Option.some.inj heq ▸ hsubset⟩
  have hsuspend : suspendProcess.LoosensTo suspendProcess :=
    ⟨rfl, rfl, ⟨hunrestricted _, hunrestricted _, hunrestricted _, hunrestricted _⟩, rfl⟩
  have hclaim : claimByClerk.LoosensTo claimByStaff :=
    ⟨rfl, rfl, ⟨hmore (by decide), hunrestricted _, hmore (by decide), hunrestricted _⟩, rfl⟩
  have htable : List.Forall₂ Template.LoosensTo clerkTable.templates staffTable.templates :=
    .cons hsuspend (.cons hclaim .nil)
  have hctx : clerkAtTask.WidensTo auditorOfProcess :=
    ⟨rfl, .inr rfl, .inl rfl, .inr ⟨["clerk"], ["auditor", "clerk"], rfl, rfl, by decide⟩,
      .inl rfl, .inr (.inl rfl)⟩
  exact ⟨htable, hctx, desktop.items_sublist_of_loosensTo htable hctx⟩

end PriorityTable

end ActionPolicy
