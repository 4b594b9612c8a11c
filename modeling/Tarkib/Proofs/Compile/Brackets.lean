import Tarkib.Compile.Brackets

/-!
# Balanced brackets

Words are balanced if every opening bracket among them has a closing one of the same shape behind
it, with balanced words in between (`Balanced`). Walking through words with a stack of the brackets
that are open tells whether they are: each closing bracket has to take the last one that is open,
and nothing may be left. That is what the search for faults does.
-/

namespace Tarkib.Compile

open Tarkib.Token List

variable {kinds : List Kind} {kind : Kind} {b : Bracket} {stack : List Bracket} {front : List Token}

namespace Bracket

/-- The bracket that a word of this kind opens. -/
def openedBy? (kind : Kind) : Option Bracket :=
  [Bracket.round, .square, .curly].find? fun b => kind == .punct b.opening

/-- The bracket that a word of this kind closes. -/
def closedBy? (kind : Kind) : Option Bracket :=
  [Bracket.round, .square, .curly].find? fun b => kind == .punct b.closing

@[simp]
theorem openedBy?_opening (b : Bracket) : openedBy? (.punct b.opening) = some b := by
  cases b <;> decide

@[simp]
theorem openedBy?_closing (b : Bracket) : openedBy? (.punct b.closing) = none := by
  cases b <;> decide

@[simp]
theorem closedBy?_closing (b : Bracket) : closedBy? (.punct b.closing) = some b := by
  cases b <;> decide

theorem eq_of_openedBy? (opens : openedBy? kind = some b) : kind = .punct b.opening :=
  beq_iff_eq.mp (find?_some (p := fun b : Bracket => kind == .punct b.opening) opens)

theorem eq_of_closedBy? (closes : closedBy? kind = some b) : kind = .punct b.closing :=
  beq_iff_eq.mp (find?_some (p := fun b : Bracket => kind == .punct b.closing) closes)

end Bracket

open Tarkib.Compile.Bracket

/-- Whether a word of this kind is no bracket. -/
def isPlain (kind : Kind) : Bool :=
  (openedBy? kind).isNone && (closedBy? kind).isNone

theorem isPlain_iff : isPlain kind = true ↔ openedBy? kind = none ∧ closedBy? kind = none := by
  simp [isPlain]

/-- The brackets among words of these kinds are nested properly. -/
inductive Balanced : List Kind → Prop where
  | nil : Balanced []
  | plain {kind : Kind} {kinds : List Kind} (noBracket : isPlain kind = true)
      (rest : Balanced kinds) : Balanced (kind :: kinds)
  | enclosed (b : Bracket) {inside rest : List Kind} (inner : Balanced inside)
      (outer : Balanced rest) :
      Balanced (.punct b.opening :: inside ++ .punct b.closing :: rest)

/-! ## Walking with a stack -/

/-- The brackets that are open behind words, the last one first, if `stack` are open in front of
them and every closing bracket takes one of its own shape. -/
def openAfter (stack : List Bracket) : List Kind → Option (List Bracket)
  | [] => some stack
  | kind :: kinds =>
    match openedBy? kind, closedBy? kind with
    | some b, _ => openAfter (b :: stack) kinds
    | none, some b =>
      match stack with
      | [] => none
      | top :: stack => if top = b then openAfter stack kinds else none
    | none, none => openAfter stack kinds

section OpenAfter

variable (stack : List Bracket) (kinds : List Kind)

@[simp]
theorem openAfter_opening (b : Bracket) :
    openAfter stack (.punct b.opening :: kinds) = openAfter (b :: stack) kinds := by
  simp [openAfter]

@[simp]
theorem openAfter_closing (b : Bracket) :
    openAfter (b :: stack) (.punct b.closing :: kinds) = openAfter stack kinds := by
  simp [openAfter]

theorem openAfter_plain (noBracket : isPlain kind = true) :
    openAfter stack (kind :: kinds) = openAfter stack kinds := by
  obtain ⟨opens, closes⟩ := isPlain_iff.mp noBracket
  simp [openAfter, opens, closes]

theorem openAfter_append (more : List Kind) :
    openAfter stack (kinds ++ more) = (openAfter stack kinds).bind (openAfter · more) := by
  fun_induction openAfter stack kinds with
  | case1 stack => rfl
  | case2 stack kind kinds b opens ih => simp [openAfter, opens, ih]
  | case3 kind kinds b closes opens => simp [openAfter, opens, closes]
  | case4 kind kinds opens b stack closes ih
  | case6 stack kind kinds closes opens ih => simp [openAfter, opens, closes, ih]
  | case5 kind kinds b closes opens top stack other => simp [openAfter, opens, closes, other]

end OpenAfter

theorem exists_of_openAfter_closing {stack stack' : List Bracket}
    (after : openAfter stack (.punct b.closing :: kinds) = some stack') :
    ∃ rest, stack = b :: rest ∧ openAfter rest kinds = some stack' := by
  cases stack with
  | nil => simp [openAfter] at after
  | cons top rest =>
    by_cases same : top = b
    · subst same
      rw [openAfter_closing] at after
      exact ⟨rest, rfl, after⟩
    · simp [openAfter, same] at after

theorem Balanced.openAfter_eq (balanced : Balanced kinds) (stack : List Bracket) :
    openAfter stack kinds = some stack := by
  induction balanced generalizing stack with
  | nil => rfl
  | plain noBracket rest ih => rw [openAfter_plain _ _ noBracket, ih]
  | enclosed b inner outer ihInner ihOuter =>
    rw [cons_append, openAfter_opening, openAfter_append, ihInner, Option.bind_some,
      openAfter_closing, ihOuter]

/-- The words close the brackets of the stack one after the other, with balanced words in front of
each closing bracket and behind the last one. -/
def Closes : List Bracket → List Kind → Prop
  | [], kinds => Balanced kinds
  | b :: stack, kinds =>
    ∃ inside rest, kinds = inside ++ .punct b.closing :: rest ∧ Balanced inside ∧ Closes stack rest

theorem Closes.prepend (closes : Closes stack kinds) (front : List Kind)
    (balanced : ∀ inside, Balanced inside → Balanced (front ++ inside)) :
    Closes stack (front ++ kinds) := by
  cases stack with
  | nil => exact balanced kinds closes
  | cons b stack =>
    obtain ⟨inside, rest, rfl, inner, outer⟩ := closes
    exact ⟨front ++ inside, rest, (append_assoc _ _ _).symm, balanced inside inner, outer⟩

theorem closes_of_openAfter (closed : openAfter stack kinds = some []) : Closes stack kinds := by
  fun_induction openAfter stack kinds with
  | case1 stack =>
    cases closed
    exact .nil
  | case2 stack kind kinds b opens ih =>
    obtain ⟨inside, rest, rfl, inner, outer⟩ := ih closed
    rw [eq_of_openedBy? opens]
    have whole := outer.prepend (.punct b.opening :: inside ++ [.punct b.closing])
      fun more balanced => by simpa using Balanced.enclosed b inner balanced
    simpa using whole
  | case3 => cases closed
  | case4 kind kinds opens b stack closes ih =>
    exact ⟨[], kinds, by rw [eq_of_closedBy? closes, nil_append], .nil, ih closed⟩
  | case5 => cases closed
  | case6 stack kind kinds closes opens ih =>
    have plain : isPlain kind = true := isPlain_iff.mpr ⟨opens, closes⟩
    exact (ih closed).prepend [kind] fun more balanced => .plain plain balanced

/-- Words are balanced exactly if the walk leaves nothing open. -/
theorem balanced_iff_openAfter : Balanced kinds ↔ openAfter [] kinds = some [] :=
  ⟨fun balanced => balanced.openAfter_eq [], closes_of_openAfter⟩

/-! ## Faults -/

theorem bracketFaults_eq_nil_iff_openAfter (stack : List (Bracket × Nat)) (ts : List Token) :
    bracketFaults stack ts = [] ↔
      openAfter (stack.map Prod.fst) (ts.map Token.kind) = some [] := by
  have opened (t : Token) : opened? t = openedBy? t.kind := rfl
  have closed (t : Token) : closed? t = closedBy? t.kind := rfl
  fun_induction bracketFaults stack ts <;> simp_all [openAfter]

/-- No fault is found exactly in balanced words. -/
theorem bracketFaults_eq_nil_iff {ts : List Token} :
    bracketFaults [] ts = [] ↔ Balanced (ts.map Token.kind) := by
  rw [bracketFaults_eq_nil_iff_openAfter, balanced_iff_openAfter]
  rfl

/-! ## Brackets among tokens -/

/-- The delimiters that open or close brackets. -/
def Bracket.symbols : List String :=
  [Bracket.round, .square, .curly].flatMap fun b => [b.opening, b.closing]

/-- The brackets among tokens. -/
def brackets (ts : List Token) : List Token :=
  ts.filter fun t => Bracket.symbols.any t.isPunct

theorem isPlain_eq_any (t : Token) : isPlain t.kind = !Bracket.symbols.any t.isPunct := by
  simp only [isPlain, openedBy?, closedBy?, Bracket.symbols, isPunct, List.find?_cons,
    List.find?_nil, flatMap_cons, flatMap_nil, cons_append, nil_append, any_cons, any_nil]
  grind

section Brackets

variable {t : Token} (ts : List Token)

theorem brackets_cons_of_isPlain (plain : isPlain t.kind = true) :
    brackets (t :: ts) = brackets ts := by
  rw [isPlain_eq_any, Bool.not_eq_true'] at plain
  exact filter_cons_of_neg (by simp [plain])

theorem brackets_cons_of_isBracket (bracket : isPlain t.kind = false) :
    brackets (t :: ts) = t :: brackets ts := by
  rw [isPlain_eq_any, Bool.not_eq_false'] at bracket
  exact filter_cons_of_pos bracket

theorem brackets_significant : brackets (significant ts) = brackets ts := by
  rw [brackets, significant, filter_filter]
  refine filter_congr fun t _ => ?_
  cases bracket : Bracket.symbols.any t.isPunct with
  | false => rfl
  | true =>
    obtain ⟨s, _, punct⟩ := any_eq_true.mp bracket
    have kind : t.kind = .punct s := beq_iff_eq.mp punct
    simp [isSignificant, kind, Kind.isSignificant]

theorem isPunct_of_opened? (opens : opened? t = some b) :
    isPlain t.kind = false ∧ t.isPunct b.opening = true := by
  have kind : t.kind = .punct b.opening := eq_of_openedBy? opens
  simp [isPlain, isPunct, kind]

theorem isPunct_of_closed? (closes : closed? t = some b) :
    isPlain t.kind = false ∧ t.isPunct b.closing = true := by
  have kind : t.kind = .punct b.closing := eq_of_closedBy? closes
  simp [isPlain, isPunct, kind]

/-- Words that are no brackets do not matter. -/
theorem balanced_brackets_iff :
    Balanced ((brackets ts).map Token.kind) ↔ Balanced (ts.map Token.kind) := by
  rw [balanced_iff_openAfter, balanced_iff_openAfter]
  suffices same : ∀ stack, openAfter stack ((brackets ts).map Token.kind) =
      openAfter stack (ts.map Token.kind) by rw [same]
  induction ts with
  | nil => exact fun stack => rfl
  | cons t ts ih =>
    intro stack
    have first (kinds : List Kind) : openAfter stack (t.kind :: kinds) =
        (openAfter stack [t.kind]).bind (openAfter · kinds) :=
      openAfter_append stack [t.kind] kinds
    cases plain : isPlain t.kind with
    | true => rw [brackets_cons_of_isPlain ts plain, ih, map_cons, openAfter_plain _ _ plain]
    | false =>
      rw [brackets_cons_of_isBracket ts plain, map_cons, map_cons, first, first (ts.map Token.kind)]
      simp only [ih]

end Brackets

/-! ## What faults are about -/

/-- The fault is about the bracket `t` behind the brackets `front`: it names the side and the shape
of `t`, and if another bracket was taken, that one stands in front and has another shape. -/
def BracketFault.Concerns (front : List Token) (t : Token) : BracketFault → Prop
  | .mismatched closing opening openedAt =>
    t.isPunct closing.closing = true ∧ opening ≠ closing ∧
      ∃ u ∈ front, u.isPunct opening.opening = true ∧ u.start = openedAt
  | .unmatched closing => t.isPunct closing.closing = true
  | .unclosed opening => t.isPunct opening.opening = true

/-- Every open bracket was opened by one of the tokens `front`. -/
def OpenedIn (front : List Token) (stack : List (Bracket × Nat)) : Prop :=
  ∀ entry ∈ stack, ∃ t ∈ front, t.isPunct entry.1.opening = true ∧ t.start = entry.2

theorem OpenedIn.mono {stack fewer : List (Bracket × Nat)} (opened : OpenedIn front stack)
    (known : fewer ⊆ stack) (t : Token) : OpenedIn (front ++ [t]) fewer := by
  intro entry member
  obtain ⟨u, inside, found⟩ := opened entry (known member)
  exact ⟨u, mem_append_left _ inside, found⟩

/-- There is a bracket among the given ones that starts at the offset and that the fault is about.
-/
def BracketFault.IsAbout (ts : List Token) (entry : Nat × BracketFault) : Prop :=
  ∃ front t behind, ts = front ++ t :: behind ∧ t.start = entry.1 ∧ entry.2.Concerns front t

theorem isAbout_of_mem_bracketFaults {stack : List (Bracket × Nat)} (opened : OpenedIn front stack)
    (ts : List Token) :
    ∀ entry ∈ bracketFaults stack ts, BracketFault.IsAbout (front ++ brackets ts) entry := by
  have split {t : Token} (bracket : isPlain t.kind = false) (front ts : List Token) :
      front ++ brackets (t :: ts) = front ++ [t] ++ brackets ts := by
    rw [brackets_cons_of_isBracket ts bracket, append_cons]
  have here {t : Token} (front ts : List Token) {fault : BracketFault}
      (concerns : fault.Concerns front t) :
      BracketFault.IsAbout (front ++ [t] ++ brackets ts) (t.start, fault) :=
    ⟨front, t, brackets ts, (append_cons _ _ _).symm, rfl, concerns⟩
  -- A bracket that was gone over joins those in front; a plain word is in neither list.
  fun_induction bracketFaults stack ts generalizing front with
  | case1 stack =>
    intro entry member
    obtain ⟨last, inside, rfl⟩ := mem_map.mp member
    obtain ⟨t, found, opens, start⟩ := opened last (mem_reverse.mp inside)
    obtain ⟨before, behind, rfl⟩ := append_of_mem found
    exact ⟨before, t, behind, by simp [brackets], start, opens⟩
  | case2 stack t ts b opens ih =>
    obtain ⟨bracket, opens⟩ := isPunct_of_opened? opens
    rw [split bracket]
    refine ih (forall_mem_cons.mpr ⟨⟨t, by simp, opens, rfl⟩, ?_⟩)
    exact opened.mono (List.Subset.refl _) t
  | case3 t ts b closes opens ih =>
    obtain ⟨bracket, closes⟩ := isPunct_of_closed? closes
    rw [split bracket]
    exact forall_mem_cons.mpr ⟨here front ts closes, ih (forall_mem_nil _)⟩
  | case4 t ts opens start stack top closes ih =>
    obtain ⟨bracket, _⟩ := isPunct_of_closed? closes
    rw [split bracket]
    exact ih (opened.mono (subset_cons_self _ _) t)
  | case5 t ts b closes opens top start stack other ih =>
    obtain ⟨bracket, closes⟩ := isPunct_of_closed? closes
    rw [split bracket]
    exact forall_mem_cons.mpr
      ⟨here front ts ⟨closes, other, (forall_mem_cons.mp opened).1⟩,
        ih (opened.mono (subset_cons_self _ _) t)⟩
  | case6 stack t ts closes opens ih =>
    rw [brackets_cons_of_isPlain ts (isPlain_iff.mpr ⟨opens, closes⟩)]
    exact ih opened

/-- Every fault gives the start of a bracket, names it, and names the one that was taken for its
partner. -/
theorem isAbout_bracketFaults (ts : List Token) :
    ∀ entry ∈ bracketFaults [] ts, BracketFault.IsAbout (brackets ts) entry := by
  have none : OpenedIn [] [] := forall_mem_nil _
  exact isAbout_of_mem_bracketFaults none ts

end Tarkib.Compile
