import Tarkib.Path.Basic

/-!
# Command lines

A command line names a command and says what the command works on. Options start with dashes and may
stand before or behind the other arguments; two dashes alone end the options. The configuration file
and the switch for more messages can be given before and behind the name of the command; what stands
behind it counts.

Arguments are taken in order, and the first one that decides the matter does so: a request for the
version or for help, or a mistake. A path too many is such a mistake, and so is an empty one.
-/

namespace Tarkib

/-- What a command line asks for. -/
inductive Command where
  /-- Compile a module, and write the code of all modules into a directory, if one is given. -/
  | compile (file : Path) (outDir : Option Path)
  | bundle (entry : Path) (output : Option Path) (minify sourceMap inlineSources : Bool)
      (externals : List String)
  /-- Check a module and everything it depends on. -/
  | check (file : Path)
  /-- Compile a module again whenever it changes. -/
  | watch (entry : Path)
  /-- Show the state of a service. -/
  | health
  deriving Repr, DecidableEq, Inhabited

namespace Command

/-- A command with the configuration file to use. -/
structure Invocation where
  config : Option Path
  command : Command
  deriving Repr, DecidableEq, Inhabited

/-- Why a command line names no command to run. -/
inductive Halt where
  | help
  | version
  /-- The command line is wrong. -/
  | usage
  deriving Repr, DecidableEq, Inhabited

/-! ## Options -/

inductive Effect where
  /-- It is on. It may be given once. -/
  | switch
  /-- It has a path as its value. It may be given once. -/
  | path
  /-- It has a text as its value. It may be given often. -/
  | texts
  | help
  | version
  deriving Repr, DecidableEq, Inhabited

/-- An option with its names and its effect. -/
structure Flag where
  long : String
  short : Option Char
  effect : Effect
  deriving Repr, DecidableEq, Inhabited

def Flag.hasValue (f : Flag) : Bool :=
  f.effect = .path || f.effect = .texts

def helpFlag : Flag := ⟨"help", some 'h', .help⟩

def commonFlags : List Flag :=
  [⟨"config", some 'c', .path⟩, ⟨"verbose", none, .switch⟩, helpFlag]

/-- The options in front of the name of a command. -/
def leadingFlags : List Flag :=
  commonFlags ++ [⟨"version", some 'V', .version⟩]

/-- What may follow the name of a command. -/
structure Form where
  flags : List Flag
  /-- How many plain arguments there may be. -/
  room : Nat
  deriving Repr, DecidableEq, Inhabited

/-- What may follow the given name, if there is such a command. -/
def formOf? (name : String) : Option Form :=
  match name with
  | "compile" => some ⟨⟨"out-dir", some 'o', .path⟩ :: commonFlags, 1⟩
  | "bundle" =>
    some ⟨[⟨"output", some 'o', .path⟩, ⟨"minify", none, .switch⟩, ⟨"source-map", none, .switch⟩,
      ⟨"inline-sources", none, .switch⟩, ⟨"external", none, .texts⟩] ++ commonFlags, 1⟩
  | "check" | "watch" => some ⟨commonFlags, 1⟩
  | "health" => some ⟨commonFlags, 0⟩
  | _ => none

/-! ## Taking arguments apart -/

/-- An argument, or an option with its value. -/
inductive Item where
  | flag (flag : Flag) (value : String)
  | plain (text : String)
  /-- Something that cannot be understood. -/
  | bad
  deriving Repr, DecidableEq, Inhabited

def isValue (text : String) : Bool :=
  text = "-" || !text.startsWith "-"

/-- A long option divided at its equals sign: the name, and the value, if there is one. -/
def splitEquals (cs : List Char) : String × Option String :=
  match cs.dropWhile (· ≠ '=') with
  | [] => (String.ofList cs, none)
  | _ :: value => (String.ofList (cs.takeWhile (· ≠ '=')), some (String.ofList value))

/-- The item of a long option. The last part says that the value is the next argument. -/
def longItem (flags : List Flag) (cs : List Char) : Sum Item Flag :=
  let (name, value) := splitEquals cs
  match flags.find? (·.long == name), value with
  | none, _ => .inl .bad
  | some f, some value => .inl (if f.hasValue then .flag f value else .bad)
  | some f, none => if f.hasValue then .inr f else .inl (.flag f "")

/-- The items of short options that stand together. An option that has a value takes what is left,
or else the next argument. -/
def shortItems (flags : List Flag) : List Char → List Item × Option Flag
  | [] => ([], none)
  | c :: cs =>
    match flags.find? (·.short == some c) with
    | none => ([.bad], none)
    | some f =>
      if f.hasValue then
        match cs with
        | [] => ([], some f)
        | '=' :: value => ([.flag f (String.ofList value)], none)
        | value => ([.flag f (String.ofList value)], none)
      else
        let (items, pending) := shortItems flags cs
        (.flag f "" :: items, pending)

/-- The items of one argument, and the option that waits for its value, if any. -/
def argumentItems (flags : List Flag) (text : String) : List Item × Option Flag :=
  match text.toList with
  | '-' :: '-' :: name =>
    match longItem flags name with
    | .inl item => ([item], none)
    | .inr f => ([], some f)
  | ['-'] => ([.plain text], none)
  | '-' :: names => shortItems flags names
  | _ => ([.plain text], none)

/-- The items of arguments. With `stops` the first plain argument ends the items, and what stands
behind it is returned; it cannot stand behind the end of the options. -/
def takeItems (flags : List Flag) (stops : Bool) : List String → List Item × List String
  | [] => ([], [])
  | "--" :: rest => (if stops then [.bad] else rest.map .plain, [])
  | text :: rest =>
    match argumentItems flags text, rest with
    | (items, some f), value :: rest =>
      if isValue value then
        let (later, behind) := takeItems flags stops rest
        (items ++ .flag f value :: later, behind)
      else (items ++ [.bad], [])
    | (items, some _), [] => (items ++ [.bad], [])
    | (items, none), rest =>
      if stops && items.any fun i => match i with | .plain _ => true | _ => false then (items, rest)
      else
        let (later, behind) := takeItems flags stops rest
        (items ++ later, behind)

/-! ## Gathering -/

structure Gathered where
  /-- The options that were given, by their long names, with their values. -/
  given : List (String × String) := []
  plain : List String := []
  deriving Repr, DecidableEq, Inhabited

namespace Gathered

def has (g : Gathered) (name : String) : Bool :=
  (g.given.lookup name).isSome

def path? (g : Gathered) (name : String) : Option Path :=
  (g.given.lookup name).map Path.mk

def texts (g : Gathered) (name : String) : List String :=
  (g.given.filter (·.1 == name)).map Prod.snd

/-- Takes in an item, if there is room for it. -/
def add (room : Nat) (g : Gathered) : Item → Except Halt Gathered
  | .bad => .error .usage
  | .plain text =>
    if text.isEmpty || room ≤ g.plain.length then .error .usage
    else .ok { g with plain := g.plain ++ [text] }
  | .flag f value =>
    match f.effect with
    | .help => .error .help
    | .version => .error .version
    | .texts => .ok { g with given := g.given ++ [(f.long, value)] }
    | .switch =>
      if g.has f.long then .error .usage else .ok { g with given := g.given ++ [(f.long, value)] }
    | .path =>
      if g.has f.long || value.isEmpty then .error .usage
      else .ok { g with given := g.given ++ [(f.long, value)] }

/-- Takes in items in order. -/
def ofItems (room : Nat) (items : List Item) : Except Halt Gathered :=
  items.foldlM (add room) {}

def onlyPath (g : Gathered) : Except Halt Path :=
  match g.plain with
  | [text] => .ok ⟨text⟩
  | _ => .error .usage

end Gathered

/-! ## Commands -/

def ofGathered (name : String) (g : Gathered) : Except Halt Command :=
  match name with
  | "compile" => do return .compile (← g.onlyPath) (g.path? "out-dir")
  | "bundle" => do
    let entry ← g.onlyPath
    if g.has "inline-sources" && !g.has "source-map" then throw .usage
    return .bundle entry (g.path? "output") (g.has "minify") (g.has "source-map")
      (g.has "inline-sources") (g.texts "external")
  | "check" => do return .check (← g.onlyPath)
  | "watch" => do return .watch (← g.onlyPath)
  | "health" => .ok .health
  | _ => .error .usage

/-- What a request for help with some topics comes to. There is help with everything together, with
each command and with help itself. -/
def helpOn : List String → Halt
  | [] => .help
  | [topic] => if topic = "help" || (formOf? topic).isSome then .help else .usage
  | _ => .usage

/-- Understands a command line. -/
def parse (arguments : List String) : Except Halt Invocation := do
  let (items, behind) := takeItems leadingFlags true arguments
  let leading ← Gathered.ofItems 1 items
  match leading.plain with
  | [name] =>
    if name = "help" then throw (helpOn behind)
    match formOf? name with
    | none => throw .usage
    | some form =>
      let g ← Gathered.ofItems form.room (takeItems form.flags false behind).1
      let command ← ofGathered name g
      return ⟨(g.path? "config").or (leading.path? "config"), command⟩
  | _ => throw .usage

end Command

end Tarkib
