/-!
# Positions in a text

A text is addressed in two ways. An offset counts the bytes of the UTF-8 encoding before a place.
A position is what a reader is shown: the line, counted from one and ended by line feeds only, and
the column, counted from one in characters.

Both are measures on the characters that come before the place, so the position of an offset is
found by taking the characters that lie before it and walking over them.
-/

namespace Tarkib.Text

/-- The number of bytes of the UTF-8 encoding. -/
def byteLength (cs : List Char) : Nat :=
  cs.foldr (fun c n => c.utf8Size + n) 0

@[simp]
theorem byteLength_nil : byteLength [] = 0 := rfl

@[simp]
theorem byteLength_cons (c : Char) (cs : List Char) :
    byteLength (c :: cs) = c.utf8Size + byteLength cs := rfl

@[simp]
theorem byteLength_append (cs ds : List Char) :
    byteLength (cs ++ ds) = byteLength cs + byteLength ds := by
  induction cs with
  | nil => simp
  | cons c cs ih => simp [ih, Nat.add_assoc]

/-- The longest run of leading characters that fits in the given number of bytes. -/
def takeBytes : Nat → List Char → List Char
  | _, [] => []
  | n, c :: cs => if c.utf8Size ≤ n then c :: takeBytes (n - c.utf8Size) cs else []

/-- Cutting a text at the end of one of its leading parts gives that part back. -/
theorem takeBytes_byteLength_append (before rest : List Char) :
    takeBytes (byteLength before) (before ++ rest) = before := by
  induction before with
  | nil =>
    cases rest with
    | nil => rfl
    | cons c cs =>
      have := c.utf8Size_pos
      simp only [List.nil_append, byteLength_nil, takeBytes]
      rw [if_neg (by omega)]
  | cons c cs ih => simp [takeBytes, ih]

/-- A place in a text as a reader sees it: line and column, both counted from one. -/
structure Position where
  line : Nat
  column : Nat
  deriving Repr, DecidableEq, Inhabited

namespace Position

/-- The place before the first character. -/
def first : Position := ⟨1, 1⟩

/-- The place after one more character: a line feed opens a new line. -/
def step (p : Position) (c : Char) : Position :=
  if c = '\n' then ⟨p.line + 1, 1⟩ else ⟨p.line, p.column + 1⟩

def after (cs : List Char) : Position :=
  cs.foldl step first

/-- The place at a byte offset; an offset past the end counts as the end. -/
def ofOffset (source : String) (offset : Nat) : Position :=
  after (takeBytes offset source.toList)

/-- The form in which diagnostics show a place. -/
def render (p : Position) : String :=
  s!"{p.line}:{p.column}"

end Position

/-- The line feeds of a text: what is left of it when only its line structure is kept. -/
def lineFeeds (s : String) : String :=
  String.ofList (s.toList.filter (· == '\n'))

/-- The number of line feeds of a text. -/
def lineFeedCount (s : String) : Nat :=
  s.toList.count '\n'

end Tarkib.Text
