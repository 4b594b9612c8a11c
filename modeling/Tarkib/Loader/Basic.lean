import Tarkib.Config.Basic
import Tarkib.Error
import Tarkib.Metrics
import Tarkib.Module.Registry

/-!
# The loader and what it keeps

A loader keeps the modules it has loaded and registers them. If it has a limiter, each module that
is kept holds a unit of it. When more is kept than is allowed, the oldest modules are dropped, but
never the one that was just loaded. How old a module is, is told by the system clock, which may show
anything: it can stand still and be set back.

Without a cache nothing is kept; modules are registered all the same.
-/

namespace Tarkib

/-- The order in which the map of the modules lists them. It is not known, but every module is
listed once. -/
structure Listing where
  list : List Module → List Module
  perm : ∀ modules, (list modules).Perm modules

instance : Inhabited Listing := ⟨id, fun _ => .refl _⟩

structure Loader where
  resolution : Config.Resolution := {}
  loading : Config.Loading := {}
  options : Compile.Options := {}
  /-- The modules that are kept, in the order in which they came. -/
  cache : List Module := []
  registry : Registry := {}
  limiter : Option Limiter := none
  breakers : Option Breakers := none
  metrics : Option Metrics := none
  listing : Listing := default
  /-- What the system clock shows at each of its readings. -/
  clock : Nat → Nat := id
  /-- How often the clock was read. -/
  readings : Nat := 0
  deriving Inhabited

namespace Loader

def ofConfig (c : Config) : Loader where
  resolution := c.resolution
  loading := c.loading
  options := c.compilation.options
  limiter := c.resourceLimits.map Limiter.ofLimits
  breakers :=
    if c.circuitBreakers then some { settings := c.circuitBreaker.sound } else none
  metrics := if c.metrics then some {} else none

/-! ## Bookkeeping -/

def count (l : Loader) (c : Counter) : Loader :=
  { l with metrics := l.metrics.map (·.increment c) }

/-- Notes that an operation was completed. Durations are not measured here. -/
def observe (l : Loader) (operation : String) : Loader :=
  { l with metrics := l.metrics.map (·.observe operation 0) }

def readClock (l : Loader) : Loader :=
  { l with readings := l.readings + 1 }

def limit (l : Loader) (f : Limiter → Limiter) : Loader :=
  { l with limiter := l.limiter.map f }

def cached? (l : Loader) (path : Path) : Option Module :=
  l.cache.find? fun m => m.id.same path

/-- The memory in bytes that the kept modules take. -/
def cacheBytes (l : Loader) : Nat :=
  Module.totalSize l.cache

/-! ## Dropping modules -/

/-- Removes a module that is no longer kept from the registry and gives its unit back. -/
def forget (l : Loader) (id : Path) : Loader :=
  let registered := (l.registry.find? id).isSome
  let l := { l with registry := l.registry.unregister id }
  if registered && l.loading.cache then l.limit Limiter.releaseModule else l

/-- Drops the module that is kept for a path. Tells whether there was one. -/
def invalidate (l : Loader) (path : Path) : Loader × Bool :=
  match l.cached? path with
  | none => (l, false)
  | some m => (({ l with cache := l.cache.filter fun m => !m.id.same path }).forget m.id, true)

/-- Drops all modules. Returns how many were kept. -/
def clear (l : Loader) : Loader × Nat :=
  let dropped := l.cache
  let l := dropped.foldl (fun l m => l.forget m.id) { l with cache := [] }
  (if l.loading.cache then l else { l with registry := {} }, dropped.length)

/-- Whether more is kept than is allowed. -/
def isOver (c : Config.Loading) (modules : List Module) : Bool :=
  c.maxCacheSize.any (· < modules.length) ||
    c.maxCacheMemory.any (· < Module.totalSize modules)

/-- The module with the earliest time except the one at `keep`; among equals the first one. -/
def oldest? (keep : Path) (modules : List Module) : Option Module :=
  (modules.filter fun m => !m.id.same keep).minOn? Module.loadedAt

/-- The modules that have to go, in order: the oldest one again and again, until no more is kept
than is allowed or only the one at `keep` is left. There are no more rounds than modules. -/
def victims (c : Config.Loading) (listing : Listing) (keep : Path) :
    Nat → List Module → List Module
  | 0, _ => []
  | rounds + 1, modules =>
    if !isOver c modules then []
    else
      match oldest? keep (listing.list modules) with
      | none => []
      | some m =>
        m :: victims c listing keep rounds (modules.filter fun other => !other.id.same m.id)

/-- Drops a module because too much is kept. -/
def evict (l : Loader) (m : Module) : Loader :=
  (l.invalidate m.id).1.count .cacheEvictions

/-- Drops the oldest modules, except the one at `keep`, until no more is kept than is allowed. -/
def enforce (l : Loader) (keep : Path) : Loader :=
  (victims l.loading l.listing keep l.cache.length l.cache).foldl evict l

/-! ## Keeping modules -/

/-- Registers a module that was loaded, and keeps it if modules are kept. -/
def commit (l : Loader) (m : Module) : Loader :=
  let l := { l with registry := l.registry.register m }
  if l.loading.cache then { l with cache := l.cache ++ [m] } else l

/-- Sees to the limits of the cache after the module at `keep` was loaded. -/
def settle (l : Loader) (keep : Path) : Loader :=
  if l.loading.cache then l.enforce keep else l

end Loader

end Tarkib
