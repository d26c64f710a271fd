import ActionPolicy.Cache.Sweeper
import ActionPolicy.Resolve

/-!
# Engines

Where decisions are resolved and remembered. A decision that is found is given as it is; one that
is not found is resolved and stored.

## Main definitions

* `Engine` – a cache of decisions and the order they are resolved in.
* `Engine.create` – an engine with a cache of its own, swept if there is a timer.
* `Engine.resolveCached` – the decision for a context, found or resolved.
* `Engine.invalidate`, `Engine.invalidateNamespace`, `Engine.clearTaskRelated`,
  `Engine.clearFormRelated` – what drops decisions.

## Design notes

A decision that is stored without a time to live of its own has the one that its namespace
recommends, and that of the cache only if the namespace recommends none.
-/

namespace ActionPolicy

namespace Namespace

/-- How long a decision in a namespace stays valid, if the cache does not have to say. -/
def ttlOr (ns : Namespace) (ttl : Option Duration) : Option Duration := ttl <|> ns.recommendedTtl

end Namespace

/-- A cache of decisions and the order that decisions are resolved in. -/
structure Engine where
  swept : SweptCache Decision
  resolver : PriorityTable

namespace Engine

/-- An engine around a cache that is not swept yet. -/
def ofCache (c : Cache Decision) (resolver : PriorityTable) : Engine := ⟨.ofCache c, resolver⟩

/-- The codec that settings ask for. -/
def codecFor (config : CacheConfig) : Option (Codec Decision) :=
  if config.compress then some .decisions else none

/-- An engine with a cache of its own, which is swept if there is a timer. -/
def create (config : CacheConfig) (resolver : PriorityTable) (timer : Bool) : Engine :=
  let c := Cache.new config (codecFor config)
  ⟨((SweptCache.ofCache c).startSweeper timer).1, resolver⟩

/-- The cache. -/
def cache (e : Engine) : Cache Decision := e.swept.cache

/-- The engine with its cache changed. -/
def withCache (e : Engine) (c : Cache Decision) : Engine :=
  { e with swept := { e.swept with cache := c } }

/-- A derivation ends with a decision, which is stored. -/
def complete (e : Engine) (now : Instant) (k : CacheKey) (d : Decision) (ttl : Option Duration)
    (version : Option String) (micros : Nat) : Engine :=
  e.withCache (e.cache.complete now k d (k.ns.ttlOr ttl) version micros)

/-- The decision that is found, or else the given one, which is stored; tells whether the given one
was needed. -/
def resolveWith (e : Engine) (now : Instant) (k : CacheKey) (ttl : Option Duration)
    (version : Option String) (d : Decision) (micros : Nat) : Engine × Decision × Bool :=
  let (c, result) := e.cache.getOrInsert now now k (k.ns.ttlOr ttl) version d micros
  (e.withCache c, result)

/-- The decision that is found, or else the one for a context and a table, which is stored; tells
whether it was resolved. -/
def resolveCached (e : Engine) (now : Instant) (k : CacheKey) (ctx : Context) (table : RuleTable)
    (ttl : Option Duration) (version : Option String) (micros : Nat) : Engine × Decision × Bool :=
  e.resolveWith now k ttl version (e.resolver.resolve ctx table) micros

/-- Drop one decision; tells whether there was one. -/
def invalidate (e : Engine) (k : CacheKey) : Engine × Bool :=
  let (c, existed) := e.cache.delete k
  (e.withCache c, existed)

/-- Drop the decisions of a namespace; tells how many there were. -/
def invalidateNamespace (e : Engine) (ns : Namespace) : Engine × Nat :=
  let (c, removed) := e.cache.clearNamespace ns
  (e.withCache c, removed)

/-- Drop the decisions of some namespaces. -/
def dropNamespaces (e : Engine) (namespaces : List Namespace) : Engine :=
  namespaces.foldl (fun e ns => (e.invalidateNamespace ns).1) e

/-- Drop what depends on a task: its actions, and the details of all process instances. -/
def clearTaskRelated (e : Engine) (taskId : String) : Engine :=
  (e.invalidate (.buttons taskId)).1.dropNamespaces [.processInfo]

/-- Drop what depends on how forms are defined. -/
def clearFormRelated (e : Engine) : Engine :=
  e.dropNamespaces [.formConfig, .formData, .permissionConfig]

/-- Drop all decisions, and sweep no more. -/
def destroy (e : Engine) : Engine := { e with swept := e.swept.destroy }

end Engine

end ActionPolicy
