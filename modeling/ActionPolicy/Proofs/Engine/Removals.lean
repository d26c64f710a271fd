import ActionPolicy.Engine
import ActionPolicy.Proofs.Cache.Removals

/-!
# Removals from an engine

An engine drops decisions by key, by namespace, for a task and for a form, and its cache is open to
other removals. Each is one or several removals from the cache, so their order does not matter
either.

## Main definitions

* `EngineRemoval`, `Engine.remove` – the removals, and what they do.
* `EngineRemoval.keeps` – what a removal keeps.
* `EngineRemoval.parts` – the removals from the cache that it is made of.

## Main statements

* `EngineRemoval.keptByAll_parts`, `Engine.remove_eq` – a removal keeps and does what its parts do.
* `Engine.removeAll_eq` – what is left after several removals, and how many decisions have gone.
* `removals_orderFree` – removals from caches and engines that are in use do not depend on their
  order.

## Design notes

Entries expire by the clock, and a purge takes its reading. The order does not matter whether the
purges read the same or not.
-/

namespace ActionPolicy

/-- A removal from the cache of an engine. -/
inductive EngineRemoval where
  /-- The cache is called by others. -/
  | cache (op : CacheRemoval)
  | invalidate (k : CacheKey)
  | invalidateNamespace (ns : Namespace)
  | clearTaskRelated (taskId : String)
  | clearFormRelated

namespace EngineRemoval

/-- What a removal keeps. -/
def keeps : EngineRemoval → CacheKey → Entry Decision → Bool
  | cache op, k, e => op.keeps k e
  | invalidate k, k', _ => k' != k
  | invalidateNamespace ns, k, _ => k.ns != ns
  | clearTaskRelated taskId, k, _ => k != .buttons taskId && k.ns != .processInfo
  | clearFormRelated, k, _ =>
    k.ns != .formConfig && k.ns != .formData && k.ns != .permissionConfig

/-- The removals from the cache that it is made of. -/
def parts : EngineRemoval → List CacheRemoval
  | cache op => [op]
  | invalidate k => [.delete k]
  | invalidateNamespace ns => [.clearNamespace ns]
  | clearTaskRelated taskId => [.delete (.buttons taskId), .clearNamespace .processInfo]
  | clearFormRelated =>
    [.clearNamespace .formConfig, .clearNamespace .formData, .clearNamespace .permissionConfig]

theorem keptByAll_parts (op : EngineRemoval) (k : CacheKey) (e : Entry Decision) :
    keptByAll CacheRemoval.keeps op.parts k e = op.keeps k e := by
  cases op <;> simp [keptByAll, parts, keeps, CacheRemoval.keeps, Bool.and_assoc]

theorem keptByAll_flatMap_parts (ops : List EngineRemoval) :
    (keptByAll CacheRemoval.keeps (ops.flatMap parts) : CacheKey → Entry Decision → Bool) =
      keptByAll keeps ops := by
  funext k e
  rw [keptByAll, List.all_flatMap, keptByAll]
  refine congrArg ops.all ?_
  funext op
  exact op.keptByAll_parts k e

end EngineRemoval

namespace Engine

/-- A removal, and how many decisions it removes. -/
def remove (e : Engine) : EngineRemoval → Engine × Nat
  | .cache op =>
    let (c, removed) := e.cache.remove op
    (e.withCache c, removed)
  | .invalidate k => (e.invalidate k).map id Bool.toNat
  | .invalidateNamespace ns => e.invalidateNamespace ns
  | .clearTaskRelated taskId =>
    let (rest, existed) := e.invalidate (.buttons taskId)
    let (_, processes) := rest.invalidateNamespace .processInfo
    (e.clearTaskRelated taskId, existed.toNat + processes)
  | .clearFormRelated =>
    let (rest, configs) := e.invalidateNamespace .formConfig
    let (rest, records) := rest.invalidateNamespace .formData
    let (_, permissions) := rest.invalidateNamespace .permissionConfig
    (e.clearFormRelated, configs + (records + permissions))

theorem remove_eq (e : Engine) (op : EngineRemoval) :
    e.remove op = (removeAll Cache.remove e.cache op.parts).map e.withCache id := by
  cases op <;> rfl

theorem removeAll_eq (e : Engine) (ops : List EngineRemoval) :
    removeAll remove e ops =
      (removeAll Cache.remove e.cache (ops.flatMap EngineRemoval.parts)).map e.withCache id := by
  induction ops generalizing e with
  | nil => rfl
  | cons op ops ih =>
    rw [List.flatMap_cons, removeAll_append]
    simp only [removeAll, remove_eq, ih]
    rfl

end Engine

/-- Removals from the cache of an engine, and from any other cache, do not depend on their order, in
whatever state use has brought it to. Two may change places, to make one again changes nothing, they
count what they remove, and the entries that no removal takes are found and evicted as before. -/
theorem removals_orderFree :
    (∀ (V : Type) (config : CacheConfig) (codec : Option (Codec V)) (calls : List (CacheCall V)),
      OrderFree Cache.store CacheRemoval.keeps Cache.remove
        ((Cache.new config codec).run calls)) ∧
    ∀ (config : CacheConfig) (codec : Option (Codec Decision)) (calls : List (CacheCall Decision))
      (elapsed : Nat) (due : Option Nat) (resolver : PriorityTable),
      OrderFree (fun e => e.cache.store) EngineRemoval.keeps Engine.remove
        ⟨⟨(Cache.new config codec).run calls, elapsed, due⟩, resolver⟩ := by
  constructor
  · intro V config codec calls
    have hsim := (Cache.Simulates.new config codec).run calls
    obtain ⟨l, hstore, -⟩ := hsim.holds
    exact .of_removeAll_eq hstore
      (fun held => { (Cache.new config codec).run calls with store := held }) (fun _ => rfl)
      (Cache.removeAll_eq hstore)
  · intro config codec calls elapsed due resolver
    have hsim := (Cache.Simulates.new config codec).run calls
    obtain ⟨l, hstore, -⟩ := hsim.holds
    let e : Engine := ⟨⟨(Cache.new config codec).run calls, elapsed, due⟩, resolver⟩
    have hput (held : Store Decision) :
        (e.withCache { e.cache with store := held }).cache.store = held := rfl
    refine .of_removeAll_eq (s := e) hstore _ hput fun ops => ?_
    have hparts := Cache.removeAll_eq hstore (ops.flatMap EngineRemoval.parts)
    rw [EngineRemoval.keptByAll_flatMap_parts] at hparts
    rw [Engine.removeAll_eq]
    exact congrArg (Prod.map e.withCache id) hparts

end ActionPolicy
