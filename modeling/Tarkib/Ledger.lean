import Tarkib.Limiter

/-!
# Guards

A unit that was taken from a limiter is held by a guard. Ending a guard gives the unit back, but
only once; committing the guard of a module keeps the unit for the module and ends the guard without
giving anything back. A ledger numbers the guards in the order in which units were asked for.
-/

namespace Tarkib

/-- Whether a guard still holds its unit. A request that was refused leaves a guard that holds none.
-/
inductive Guard where
  | held
  | ended
  deriving Repr, DecidableEq, Inhabited

/-- A limiter with the guards of modules and of files. -/
structure Ledger where
  limiter : Limiter
  modules : List Guard := []
  files : List Guard := []
  deriving Repr, Inhabited

namespace Ledger

def isHeld (guards : List Guard) (number : Nat) : Bool :=
  guards[number]? == some .held

/-- Asks for a unit for a module. -/
def reserve (l : Ledger) : Ledger × Bool :=
  match l.limiter.reserveModule? with
  | some limiter => ({ l with limiter, modules := l.modules ++ [.held] }, true)
  | none => ({ l with modules := l.modules ++ [.ended] }, false)

/-- Keeps the unit of a guard for its module. Tells whether the guard held it. -/
def commit (l : Ledger) (number : Nat) : Ledger × Bool :=
  if isHeld l.modules number then ({ l with modules := l.modules.set number .ended }, true)
  else (l, false)

/-- Gives back the unit of a guard of a module. Tells whether the guard held it. -/
def release (l : Ledger) (number : Nat) : Ledger × Bool :=
  if isHeld l.modules number then
    ({ l with limiter := l.limiter.releaseModule, modules := l.modules.set number .ended }, true)
  else (l, false)

/-- Asks for a unit for a file. -/
def openFile (l : Ledger) : Ledger × Bool :=
  match l.limiter.openFile? with
  | some limiter => ({ l with limiter, files := l.files ++ [.held] }, true)
  | none => ({ l with files := l.files ++ [.ended] }, false)

/-- Gives back the unit of a guard of a file. Tells whether the guard held it. -/
def closeFile (l : Ledger) (number : Nat) : Ledger × Bool :=
  if isHeld l.files number then
    ({ l with limiter := l.limiter.closeFile, files := l.files.set number .ended }, true)
  else (l, false)

end Ledger

end Tarkib
