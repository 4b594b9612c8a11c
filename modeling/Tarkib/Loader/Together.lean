import Tarkib.Loader.Load

/-!
# Loading several modules together

Several loads can be under way at once. Each of them walks through its own graph, and all of them
are started, in order, before any file is read. A file that several walks need is read and compiled
once: the first walk that needs it makes the attempt, and the others wait for the outcome. If the
attempt fails, the failure belongs to the walk that made it, and the next one that waits tries again
by itself; what such a second attempt yields is handed on but not kept.

Attempts that are under way stand in a queue. In turn, each is taken from the front, reads its file
and goes to the back, or compiles its source and ends. What a walk does between two attempts takes
no time.
-/

namespace Tarkib.Loader

/-- How far an attempt has come. -/
inductive Stage where
  | reading
  | compiling (source : String)
  deriving Repr, DecidableEq, Inhabited

/-- An attempt that is under way, with the walks that depend on it by their numbers. -/
structure Flight where
  attempt : Attempt
  stage : Stage
  /-- The walk that makes the attempt. -/
  owner : Nat
  /-- The walks that wait for the outcome. -/
  waiting : List Nat
  /-- Whether the module will be kept: not in an attempt after a failed one. -/
  keeps : Bool
  deriving Repr, DecidableEq, Inhabited

/-- One of several loads. -/
inductive Job where
  /-- Under way: the walk, and the module it started with, once that is loaded. -/
  | walking (walk : Walk) (entry : Option Module)
  | ended (result : Except Error Loaded)
  deriving Inhabited

/-- Several loads under way. -/
structure Together where
  loader : Loader
  jobs : List Job
  /-- The attempts under way, in the order in which it is their turn. -/
  queue : List Flight := []
  deriving Inhabited

namespace Together

/-- Changes a load. -/
def setJob (t : Together) (number : Nat) (job : Job) : Together :=
  { t with jobs := t.jobs.set number job }

def endJob (t : Together) (number : Nat) (result : Except Error Loaded) : Together :=
  t.setJob number (.ended result)

/-- Ends a load whose attempt to load a file has failed. -/
def failJob (t : Together) (number : Nat) (e : Error) : Together :=
  { t.endJob number (.error e) with loader := t.loader.count .loadFailures }

/-- Adds a waiting walk to the attempt for a path whose module will be kept, if there is one. -/
def await (number : Nat) (path : Path) : List Flight → Option (List Flight)
  | [] => none
  | f :: queue =>
    if f.keeps && f.attempt.path.same path then
      some ({ f with waiting := f.waiting ++ [number] } :: queue)
    else (await number path queue).map (f :: ·)

/-- Begins an attempt for a walk. -/
def launch (t : Together) (now : Nat) (number : Nat) (path : Path) (waiting : List Nat)
    (keeps : Bool) : Together × Bool :=
  match t.loader.beginAttempt now path with
  | (loader, .ok attempt) =>
    ({ t with loader, queue := t.queue ++ [⟨attempt, .reading, number, waiting, keeps⟩] }, true)
  | (loader, .error e) => (({ t with loader }).failJob number e, false)

/-- Goes on with a walk that was given a module. The number bounds how many modules it is given at
once. -/
def proceed (now : Nat) (number : Nat) :
    Nat → Walk → Option Module → Module → Together → Together
  | 0, _, _, _, t => t
  | fuel + 1, walk, entry, m, t =>
    let entry := entry.getD m
    match (walk.enter m).advance t.loader.loading.cyclePolicy with
    | .over walk =>
      { t.endJob number (.ok (.graph (walk.graph entry))) with loader := t.loader.observe "load" }
    | .circle ids => t.failJob number (.circle ids)
    | .need path walk =>
      match t.loader.cached? path with
      | some m =>
        proceed now number fuel walk (some entry) m { t with loader := t.loader.count .cacheHits }
      | none =>
        let t := t.setJob number (.walking walk (some entry))
        match await number path t.queue with
        | some queue => { t with queue }
        | none => (t.launch now number path [] true).1

/-- Gives a module to the walk of a load. -/
def give (now fuel : Nat) (m : Module) (t : Together) (number : Nat) : Together :=
  match t.jobs[number]? with
  | some (.walking walk entry) => proceed now number fuel walk entry m t
  | _ => t

def startWalk (t : Together) (now fuel : Nat) (number : Nat) (path : Path) : Together :=
  let t := t.setJob number (.walking (.start path) none)
  match t.loader.cached? path with
  | some m => give now fuel m { t with loader := t.loader.count .cacheHits } number
  | none =>
    match await number path t.queue with
    | some queue => { t with queue }
    | none => (t.launch now number path [] true).1

def startJob (project : Project) (now fuel : Nat) (directory : Path) (t : Together)
    (numbered : String × Nat) : Together :=
  let (specifier, number) := numbered
  match t.loader.resolve project now specifier directory with
  | (loader, .error e) => ({ t with loader }).endJob number (.error e)
  | (loader, .ok (.external name)) => ({ t with loader }).endJob number (.ok (.external name))
  | (loader, .ok (.file path)) => ({ t with loader }).startWalk now fuel number path

/-- After a failed attempt the walks that waited for it try again, one after the other, until an
attempt is under way. -/
def retry (now : Nat) (path : Path) : List Nat → Together → Together
  | [], t => t
  | number :: waiting, t =>
    match t.launch now number path waiting false with
    | (t, true) => t
    | (t, false) => retry now path waiting t

/-- Hands on the module of an attempt to the walks that depend on it. -/
def land (now fuel : Nat) (f : Flight) (m : Module) (t : Together) : Together :=
  let path := f.attempt.path
  let loader :=
    if f.keeps || !t.loader.loading.cache then t.loader.commit m else t.loader.unreserve
  (f.owner :: f.waiting).foldl
    (fun t number => give now fuel m { t with loader := t.loader.settle path } number)
    { t with loader }

/-- Ends an attempt. -/
def conclude (now fuel : Nat) (f : Flight) (result : Except Error Module) (t : Together) :
    Together :=
  let t := { t with loader := t.loader.endAttempt now f.attempt result }
  match result with
  | .ok m => land now fuel f m t
  | .error e => retry now f.attempt.path f.waiting (t.failJob f.owner e)

/-- The attempt at the front of the queue has its turn. -/
def turn (project : Project) (now fuel : Nat) (f : Flight) (t : Together) : Together :=
  match f.stage with
  | .reading =>
    let t := { t with loader := t.loader.closeFile }
    match readSource project f.attempt.path with
    | .ok source => { t with queue := t.queue ++ [{ f with stage := .compiling source }] }
    | .error e => conclude now fuel f (.error e) t
  | .compiling source =>
    conclude now fuel f (t.loader.build project f.attempt.path source) t

/-- Gives attempts their turns until none is under way; the first number bounds the turns. -/
def run (project : Project) (now fuel : Nat) : Nat → Together → Together
  | 0, t => t
  | turns + 1, t =>
    match t.queue with
    | [] => t
    | f :: queue => run project now fuel turns (turn project now fuel f { t with queue })

def result : Job → Except Error Loaded
  | .ended r => r
  | .walking walk _ =>
    .error (.load (walk.visited.headD default) (.unreadable .notFound))

end Together

/-- Loads what several specifiers stand for, seen from one directory. Each walk needs a module at
most once, and an attempt has two turns, so the bound on the turns is never reached. -/
def loadAll (l : Loader) (project : Project) (now : Nat) (specifiers : List String)
    (directory : Path) : Loader × List (Except Error Loaded) :=
  let fuel := l.reach project
  let t : Together := ⟨l, specifiers.map fun _ => default, []⟩
  let t := specifiers.zipIdx.foldl (Together.startJob project now fuel directory) t
  let t := Together.run project now fuel (2 * (specifiers.length * fuel + 1)) t
  (t.loader, t.jobs.map Together.result)

end Tarkib.Loader
