import Tarkib.Error
import Tarkib.Project.Edit

/-!
# Watching files

A session watches paths. It subscribes to the directories that they lie in, as far as these are
there when the session starts, so a file that is not there yet can be watched too. Of the changes in
these directories it reports those of watched paths.

The operating system tells of changes by signals. A signal about an entry reaches whoever has
subscribed to the directory of the entry, and a signal about a directory itself whoever has
subscribed to that directory. A subscription belongs to the directory and not to its path: if the
directory or one further up is renamed it goes on, and reports still name the path that it started
with. It ends when the directory is removed, and when it is heard that the entry of its name was
removed or renamed, which takes a subscription to the directory above.

Reports name canonical paths. A watched path is therefore brought into that form through its
directory; a path without a directory part stays as it is and is never matched.
-/

namespace Tarkib.Watch

/-- What has happened to a file. -/
inductive Kind where
  | created
  | modified
  | renamed
  | removed
  deriving Repr, DecidableEq, Inhabited

def Kind.name : Kind → String
  | .created => "created"
  | .modified => "modified"
  | .renamed => "renamed"
  | .removed => "removed"

/-- A change of a file at a place. -/
structure Change where
  kind : Kind
  place : List String
  deriving Repr, DecidableEq, Inhabited

/-! ## Signals -/

/-- What the operating system tells about a change. Places are those before the change, except for
what has appeared. -/
inductive Signal where
  /-- An entry of a directory was created, written or removed. -/
  | entry (kind : Kind) (place : List String)
  /-- An entry of a directory was renamed. -/
  | moved (source target : List String)
  /-- A directory itself was altered, renamed or removed. -/
  | directory (kind : Kind) (place : List String)
  deriving Repr, DecidableEq, Inhabited

/-- The signals when something appears: a file that is not empty is also written. -/
def appearance (project : Project) (place : List String) : List Signal :=
  match project.node? place with
  | some (.file content) =>
    if content.isEmpty then [.entry .created place]
    else [.entry .created place, .entry .modified place]
  | _ => [.entry .created place]

/-- The signals when something was put at a place: a file that was there is written, and a directory
that was there stays as it is. There is no place if putting it failed, but directories may have been
created before. -/
def signalsOfPut (before after : Project) (place : Option (List String)) : List Signal :=
  (before.added after).flatMap (appearance after) ++
    (place.filter fun place => (before.contentAt? place).isSome).toList.map (.entry .modified)

/-- The signals when something was removed: what was below it goes first. -/
def signalsOfDelete (before after : Project) : List Signal :=
  (after.added before).reverse.flatMap fun place =>
    if before.hasDirectory place then [.directory .removed place, .entry .removed place]
    else [.entry .removed place]

/-- The signals when something was renamed. A directory whose place is taken loses its last link,
which alters it, before it is removed. -/
def signalsOfRename (before : Project) (source target : List String) : List Signal :=
  let about (kind : Kind) (place : List String) : List Signal :=
    if before.hasDirectory place then [.directory kind place] else []
  if source = target then []
  else .moved source target :: about .modified target ++ about .renamed source ++
    about .removed target

/-! ## Sessions -/

structure Subscription where
  /-- The place that the directory had at the start, by which reports name it. -/
  name : List String
  /-- The place that the directory has now. -/
  place : List String
  deriving Repr, DecidableEq, Inhabited

def Subscription.carried (u : Subscription) : Signal → Subscription
  | .moved source target => { u with place := Project.moved source target u.place }
  | _ => u

structure Session where
  watched : List Path
  /-- The directories that were subscribed to at the start, in ascending order. -/
  directories : List (List String)
  subscriptions : List Subscription
  closed : Bool := false
  deriving Repr, DecidableEq, Inhabited

namespace Session

/-! ### Start and end -/

/-- The form in which reports name a path. -/
def key (project : Project) (path : Path) : Path :=
  let path := path.normalize
  match path.parent?, path.fileName? with
  | some parent, some name =>
    match project.canonical parent with
    | .ok directory => directory.join name
    | .error _ => path
  | _, _ => path

def directory? (project : Project) (watched : Path) : Option (List String) := do
  let parent ← watched.parent?
  let place ← (project.locate parent).toOption
  if project.hasDirectory place then some place else none

def start (project : Project) (paths : List Path) : Session :=
  let watched := paths.map (key project)
  let directories := (watched.filterMap (directory? project)).eraseDups.mergeSort
    fun a b => (Project.pathOf a).le (Project.pathOf b)
  { watched, directories, subscriptions := directories.map fun place => ⟨place, place⟩ }

/-- The directories whose subscriptions have ended before the session. -/
def lost (s : Session) : List Path :=
  (s.directories.filter fun name => !s.subscriptions.any (·.name == name)).map Project.pathOf

/-- Ends the session. It is an error if there are subscriptions that have ended before it, but the
session ends all the same. Ending it again does nothing. -/
def close (s : Session) : Session × Except Error Unit :=
  if s.closed then (s, .ok ())
  else ({ s with closed := true, subscriptions := [] },
    if s.lost.isEmpty then .ok () else .error (.unsubscribed s.lost))

/-! ### Hearing -/

/-- Something that a session gets to know: a change of a path, and whether it ends the subscription
with that name. -/
structure News where
  change : Change
  ends : Bool
  deriving Repr, DecidableEq, Inhabited

/-- The name of the directory at a place, if it is subscribed to. -/
def nameOf? (s : Session) (place : List String) : Option (List String) :=
  (s.subscriptions.find? (·.place == place)).map Subscription.name

/-- The name of an entry, if its directory is subscribed to. -/
def entryName? (s : Session) (place : List String) : Option (List String) :=
  (s.nameOf? place.dropLast).map (· ++ place.getLast?.toList)

/-- What a session gets to know by a signal. The two ends of a renaming are heard of each for
itself, and once more together if both are heard of. -/
def news (s : Session) : Signal → List News
  | .entry kind place =>
    (s.entryName? place).toList.map fun name => ⟨⟨kind, name⟩, kind = .removed⟩
  | .moved source target =>
    let heard (ends : Bool) (name : List String) : News := ⟨⟨.renamed, name⟩, ends⟩
    match s.entryName? source, s.entryName? target with
    | some a, some b => [heard true a, heard false b, heard false a, heard false b]
    | some a, none => [heard true a]
    | none, some b => [heard false b]
    | none, none => []
  | .directory kind place =>
    (s.nameOf? place).toList.map fun name => ⟨⟨kind, name⟩, kind = .removed⟩

/-- The places of the directories that signals tell to be removed. -/
def removedPlaces (signals : List Signal) : List (List String) :=
  signals.filterMap fun
    | .directory .removed place => some place
    | _ => none

/-- Ends the subscription with a name, if there is one. Those with names below it end too, unless
its directory is among the removed ones: what was below such a directory is told of by itself. -/
def unsubscribe (removed : List (List String)) (subscriptions : List Subscription)
    (name : List String) : List Subscription :=
  match subscriptions.find? (·.name == name) with
  | none => subscriptions
  | some ended =>
    subscriptions.filter fun u =>
      if removed.contains ended.place then u.name != name else !name.isPrefixOf u.name

def reports (s : Session) (c : Change) : Bool :=
  s.watched.any (Project.pathOf c.place).same

def merge : List Change → List Change
  | [] => []
  | [c] => [c]
  | c :: d :: rest => if c = d then merge (d :: rest) else c :: merge (d :: rest)

/-- Hears the signals of one change. Returns the reports. -/
def hear (s : Session) (signals : List Signal) : Session × List Change :=
  let heard := signals.flatMap s.news
  let ended := (heard.filter News.ends).map fun n => n.change.place
  let kept := ended.foldl (unsubscribe (removedPlaces signals)) s.subscriptions
  ({ s with subscriptions := kept.map fun u => signals.foldl Subscription.carried u },
    merge ((heard.map News.change).filter s.reports))

end Session

end Tarkib.Watch
