import Tarkib.Text.Bytes

/-!
# Paths

A path is a text whose parts are divided by slashes. Repeated slashes, a slash at the end and a
single dot behind the first part do not matter: paths are compared and ordered by their components,
but they are shown as they were written. The parts may be bytes as well as texts.

Operations that cut a path (`parent?`, `withFileName`) keep the spelling of what is left.
-/

namespace Tarkib

/-- One step of a path. -/
inductive Component where
  /-- The slash that starts an absolute path. -/
  | root
  /-- The single dot that starts a relative path. -/
  | here
  /-- Two dots: the directory above. -/
  | up
  | name (text : String)
  deriving Repr, DecidableEq, Inhabited

namespace Component

def rank : Component → Nat
  | .root => 0
  | .here => 1
  | .up => 2
  | .name _ => 3

/-- Components are ordered by kind, and names by their text. -/
def compare : Component → Component → Ordering
  | .name a, .name b => Ord.compare a b
  | a, b => Ord.compare a.rank b.rank

def text : Component → String
  | .root => "/"
  | .here => "."
  | .up => ".."
  | .name s => s

/-- The component that a stretch of text between slashes stands for, if it counts. -/
def ofSegment? (segment : List Char) : Option Component :=
  match segment with
  | [] => none
  | ['.'] => none
  | ['.', '.'] => some .up
  | cs => some (.name (String.ofList cs))

def compareLists : List Component → List Component → Ordering
  | [], [] => .eq
  | [], _ :: _ => .lt
  | _ :: _, [] => .gt
  | a :: as, b :: bs => (compare a b).then (compareLists as bs)

end Component

structure Path where
  text : String
  deriving Repr, DecidableEq, Inhabited

namespace Path

/-! ## Components -/

/-- The stretches of text between slashes. -/
def segments : List Char → List (List Char)
  | [] => [[]]
  | c :: cs =>
    if c = '/' then [] :: segments cs
    else
      match segments cs with
      | [] => [[c]]
      | s :: ss => (c :: s) :: ss

/-- The text with the given stretches between slashes. -/
def joinSegments : List (List Char) → List Char
  | [] => []
  | [s] => s
  | s :: ss => s ++ '/' :: joinSegments ss

/-- Whether the path starts at the root. -/
def isAbsolute (p : Path) : Bool :=
  p.text.toList.head? == some '/'

def components (p : Path) : List Component :=
  let segs := segments p.text.toList
  if p.isAbsolute then .root :: segs.filterMap Component.ofSegment?
  else
    match segs with
    | ['.'] :: rest => .here :: rest.filterMap Component.ofSegment?
    | segs => segs.filterMap Component.ofSegment?

def textOf : List Component → String
  | .root :: rest => "/" ++ String.intercalate "/" (rest.map Component.text)
  | parts => String.intercalate "/" (parts.map Component.text)

/-- The path with the given components in its plain spelling. -/
def ofComponents (parts : List Component) : Path :=
  ⟨textOf parts⟩

/-- Paths are equal for all purposes when they have the same components. -/
def same (p q : Path) : Bool :=
  p.components == q.components

def compare (p q : Path) : Ordering :=
  Component.compareLists p.components q.components

/-- The order of paths as a test. -/
def le (p q : Path) : Bool :=
  (compare p q).isLE

/-- The path as bytes. -/
def encoded (p : Path) : Path :=
  ⟨Text.encode p.text⟩

/-! ## Putting together -/

/-- The path `q` as seen from `p`: an absolute path replaces `p`, any other one is appended. -/
def join (p : Path) (q : String) : Path :=
  if (Path.mk q).isAbsolute then ⟨q⟩
  else if p.text.isEmpty || p.text.toList.getLast? == some '/' then ⟨p.text ++ q⟩
  else ⟨p.text ++ "/" ++ q⟩

/-! ## Taking apart -/

/-- Whether a stretch of text between slashes counts as a component. The first one of a relative
path counts even if it is a dot. -/
def counts (relativeStart : Bool) (segment : List Char) : Bool :=
  !segment.isEmpty && (relativeStart || segment != ['.'])

/-- Drops, from segments in reverse order, those that do not count. `relative` says that the
segments start a relative path. -/
def dropIdle (relative : Bool) : List (List Char) → List (List Char)
  | [] => []
  | s :: ss => if counts (relative && ss.isEmpty) s then s :: ss else dropIdle relative ss

/-- The path before its last component, in the spelling of the path. The root and the empty path
have none. -/
def parent? (p : Path) : Option Path :=
  let relative := !p.isAbsolute
  match dropIdle relative (segments p.text.toList).reverse with
  | [] => none
  | _ :: before =>
    match dropIdle relative before with
    | [] => some ⟨if relative then "" else "/"⟩
    | kept => some ⟨String.ofList (joinSegments kept.reverse)⟩

/-- The path and all paths above it. The number of them is bounded by the length of the text. -/
def ancestorsFrom : Nat → Path → List Path
  | 0, p => [p]
  | n + 1, p =>
    match p.parent? with
    | none => [p]
    | some q => p :: ancestorsFrom n q

/-- The path itself, the path above it, and so on up to the root or the empty path. -/
def ancestors (p : Path) : List Path :=
  ancestorsFrom p.text.length p

/-- The last component, if it is a name. -/
def fileName? (p : Path) : Option String :=
  match p.components.getLast? with
  | some (.name s) => some s
  | _ => none

/-- A file name divided at its last dot. A dot at the start divides nothing. -/
def splitExtension (name : String) : String × Option String :=
  let cs := name.toList.reverse
  let suffix := cs.takeWhile (· != '.')
  match cs.dropWhile (· != '.') with
  | [] => (name, none)
  | [_] => (name, none)
  | _ :: stem => (String.ofList stem.reverse, some (String.ofList suffix.reverse))

/-- The part of the file name behind its last dot. -/
def extension? (p : Path) : Option String :=
  p.fileName?.bind fun name => (splitExtension name).2

def withFileName (p : Path) (name : String) : Path :=
  match p.fileName? with
  | some _ => (p.parent?.getD ⟨""⟩).join name
  | none => p.join name

/-- The path with another extension, in its own spelling up to there. A path without a file name
stays as it is. -/
def withExtension (p : Path) (extension : String) : Path :=
  match p.fileName?, dropIdle (!p.isAbsolute) (segments p.text.toList).reverse with
  | some name, _ :: before =>
    let renamed := (splitExtension name).1 ++ "." ++ extension
    ⟨String.ofList (joinSegments (renamed.toList :: before).reverse)⟩
  | _, _ => p

/-- The components of `p` behind those of `base`, if `p` starts with `base`. -/
def after? (p base : Path) : Option (List Component) :=
  if base.components.isPrefixOf p.components then
    some (p.components.drop base.components.length)
  else none

/-! ## Lexical location -/

/-- One component added to a location: two dots take the last component away, unless the location
is empty or the root. -/
def stepTo (location : List Component) (c : Component) : List Component :=
  match c with
  | .here => location
  | .up =>
    match location.getLast? with
    | none => location ++ [.up]
    | some .root => location ++ [.up]
    | some _ => location.dropLast
  | c => location ++ [c]

/-- The components without dots, and with names taken away by the two dots that follow them. -/
def normalParts (parts : List Component) : List Component :=
  parts.foldl stepTo []

/-- The path without dots, found without looking at any file. -/
def normalize (p : Path) : Path :=
  ofComponents (normalParts p.components)

/-! ## Relative location -/

/-- The way from `base` to `target`. Their common start is passed over until the ways part; then one
step up is taken for each component that is left of `base`. There is no way back out of two dots,
and a dot in `base` is passed over together with a component of `target` that is kept. -/
def wayBetween (parted : Bool) : List Component → List Component → Option (List Component)
  | target, [] => some target
  | [], _ :: base => (wayBetween true [] base).map (.up :: ·)
  | t :: target, b :: base =>
    if !parted && t == b then wayBetween false target base
    else
      match b with
      | .here => (wayBetween true target base).map (t :: ·)
      | .up => none
      | _ => some (List.replicate (base.length + 1) .up ++ t :: target)

def dropInnerDots : List Component → List Component
  | [] => []
  | c :: cs => c :: cs.filter (· != .here)

/-- The components that lead from the directory `base` to `p`. An absolute path is its own way from
a relative directory, and there is no way from an absolute directory to a relative path. -/
def relativeTo? (p base : Path) : Option (List Component) :=
  if p.isAbsolute == base.isAbsolute then
    (wayBetween false p.components base.components).map dropInnerDots
  else if p.isAbsolute then some p.components
  else none

end Path

end Tarkib
