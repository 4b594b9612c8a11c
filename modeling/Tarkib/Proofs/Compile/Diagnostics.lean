import Tarkib.Proofs.Compile.Brackets
import Tarkib.Proofs.Compile.Declarative
import Tarkib.Proofs.Require.Calls
import Tarkib.Proofs.Text.Position

/-!
# Tokens that cannot be read

A literal or comment without an end, and a character that starts nothing, are tokens. Lowering
reports each of them where it copies it. The tokens that it does not copy are those of declarations,
and none of these is unreadable.

What a reader sees of a problem is its wording. It starts with the place, and every problem of
another sort stands at a token that can be read, or at none.
-/

namespace Tarkib.Compile

open Tarkib.Text Tarkib.Token List

/-! ## Unreadable tokens -/

/-- The problem that a token is, if it cannot be read: its fault or its character, with the place
where it starts. -/
def lexical? (source : String) (t : Token) : Option Problem :=
  match t.kind with
  | .fault fault => some (.unreadable (Position.ofOffset source t.start) fault)
  | .stray c => some (.stray (Position.ofOffset source t.start) c)
  | _ => none

/-- Whether the problem is that of a token that cannot be read. -/
def Problem.isLexical : Problem → Bool
  | .unreadable _ _ | .stray _ _ => true
  | _ => false

variable {source : String} {t : Token} {p q : Problem} {ts : List Token} {place : Position}
  {options : Options}

theorem lexical?_eq_none_iff : lexical? source t = none ↔ isWritable t.kind = true := by
  unfold lexical? isWritable
  cases t.kind <;> simp

theorem isLexical_of_lexical? (found : lexical? source t = some p) : p.isLexical = true := by
  unfold lexical? at found
  split at found
  · cases found
    rfl
  · cases found
    rfl
  · cases found

theorem isWritable_of_trivia (trivia : t.isSignificant = false) : isWritable t.kind = true := by
  unfold isSignificant at trivia
  cases kind : t.kind with
  | fault | stray =>
    rw [kind] at trivia
    cases trivia
  | _ => rfl

theorem filterMap_significant (source : String) (ts : List Token) :
    (significant ts).filterMap (lexical? source) = ts.filterMap (lexical? source) := by
  induction ts with
  | nil => rfl
  | cons t ts ih =>
    cases word : t.isSignificant with
    | true =>
      rw [significant, filter_cons_of_pos word, filterMap_cons, filterMap_cons, ← significant, ih]
    | false =>
      rw [significant, filter_cons_of_neg (by simp [word]), ← significant, ih,
        filterMap_cons_none (lexical?_eq_none_iff.mpr (isWritable_of_trivia word))]

theorem Declarative.filterMap_eq (declarative : Declarative ts) (source : String) :
    ts.filterMap (lexical? source) = [] := by
  rw [filterMap_eq_nil_iff]
  intro t member
  exact lexical?_eq_none_iff.mpr (isWritable_of_isDeclarative (declarative t member))

/-! ## Lowering -/

section Step

variable (ctx : Context) (before : List Token) (number : Nat) {l : Lexeme} (rest : List Lexeme)

theorem problems_lowerToken (next : Option Token) :
    (lowerToken ctx before l next).problems = (lexical? ctx.source l.token).toList := by
  unfold lowerToken lexical?
  dsimp only
  cases l.token.kind <;> rfl

/-- What a step reports of the tokens that it goes over. -/
def Step.Reports (source : String) (step : Step) (l : Lexeme) (rest : List Lexeme) : Prop :=
  step.item.problems.filter Problem.isLexical =
    (l.token :: (rest.take step.size).map Lexeme.token).filterMap (lexical? source)

theorem reports_lowerImport (word : l.token.isWord importWords = true) :
    (lowerImport ctx number l rest).Reports ctx.source l rest := by
  have keyword := isDeclarative_of_isWord word
  unfold lowerImport Step.Reports
  split
  · exact ((declarative_cons keyword declarative_nil).filterMap_eq _).symm
  · next parsed import_ =>
      have others := declarative_parse_import import_
      rw [← map_take] at others
      exact ((declarative_cons keyword others).filterMap_eq _).symm

theorem reports_lowerExport (word : l.token.isWord exportWords = true) :
    (lowerExport ctx l rest).Reports ctx.source l rest := by
  have keyword := isDeclarative_of_isWord word
  unfold lowerExport Step.Reports
  split
  · exact ((declarative_cons keyword declarative_nil).filterMap_eq _).symm
  · next parsed export_ =>
      split
      · exact ((declarative_cons keyword declarative_nil).filterMap_eq _).symm
      · exact ((declarative_cons keyword (declarative_parse_export export_)).filterMap_eq _).symm

theorem reports_lowerFirst :
    (lowerFirst ctx before number l rest).Reports ctx.source l rest := by
  unfold lowerFirst
  split
  · next starts =>
      simp only [startsImport, Bool.and_eq_true] at starts
      exact reports_lowerImport ctx number rest starts.2.1
  split
  · next starts =>
      rw [Bool.and_eq_true] at starts
      exact reports_lowerExport ctx rest starts.2
  · unfold Step.Reports
    rw [problems_lowerToken]
    cases found : lexical? ctx.source l.token with
    | none => simp [found]
    | some p => simp [found, isLexical_of_lexical? found]

end Step

/-- Each unreadable token is reported once, where it is copied. -/
theorem lexical_lowerFrom (ctx : Context) (before : List Token) (number : Nat)
    (ls : List Lexeme) :
    ((lowerFrom ctx before number ls).flatMap Item.problems).filter Problem.isLexical =
      (ls.map Lexeme.token).filterMap (lexical? ctx.source) := by
  fun_induction lowerFrom ctx before number ls with
  | case1 => rfl
  | case2 before number l rest step before' number' remaining ih =>
    have tokens : remaining.map Lexeme.token = (rest.map Lexeme.token).drop step.size :=
      map_token_remaining step rest
    have here : step.Reports ctx.source l rest := reports_lowerFirst ctx before number rest
    rw [flatMap_cons, filter_append, here, ih, tokens, ← filterMap_append,
      cons_append, map_take, take_append_drop, map_cons]

/-! ## Modules -/

/-- The problems of this sort are those of the tokens of the source, in order. -/
theorem lexical_lowerModule (options : Options) (source : String) :
    (lowerModule options source).problems.filter Problem.isLexical =
      (scan source).filterMap (lexical? source) := by
  have brackets (faults : List (Nat × BracketFault)) : (faults.map fun entry =>
      Problem.bracket (Position.ofOffset source entry.1) entry.2).filter Problem.isLexical =
      [] := by
    simp [filter_map, Problem.isLexical]
  have repeated (names : List String) : (if options.typeCheck then
      names.map Problem.duplicateExport else []).filter Problem.isLexical = [] := by
    split <;> simp [filter_map, Problem.isLexical]
  rw [problems_lowerModule, filter_append, filter_append, brackets, repeated, nil_append,
    append_nil, moduleItems, lexical_lowerFrom, Lexeme.token_splitFrom, filterMap_significant]

/-! ## Places of problems -/

/-- No two tokens start at the same place. -/
theorem eq_of_ofOffset_eq {u : Token} (first : t ∈ scan source) (second : u ∈ scan source)
    (same : Position.ofOffset source t.start = Position.ofOffset source u.start) : t = u :=
  eq_of_start_eq first second (Position.eq_of_ofOffset_eq (spans_of_mem_scan source t first).opens
    (spans_of_mem_scan source u second).opens same)

/-- The place that a problem names. -/
def Problem.position? : Problem → Option Position
  | .bracket position _ | .unreadable position _ | .stray position _ | .malformed position _ =>
    some position
  | _ => none

theorem render_injective {p q : Position} {x y : List Char}
    (same : p.render.toList ++ ':' :: ' ' :: x = q.render.toList ++ ':' :: ' ' :: y) :
    p = q ∧ x = y := by
  have digits (n : Nat) (rest : List Char) :
      (n.repr.toList ++ ':' :: rest).takeWhile Char.isDigit = n.repr.toList := by
    have all : ∀ c ∈ n.repr.toList, c.isDigit = true := by
      rw [Nat.repr_eq_ofList_toDigits, String.toList_ofList]
      exact fun c member => Nat.isDigit_of_mem_toDigits (by decide) (by decide) member
    rw [takeWhile_append_of_pos all, takeWhile_cons_of_neg (by decide), append_nil]
  have number {m n : Nat} (same : m.repr.toList = n.repr.toList) : m = n := by
    rw [Nat.repr_eq_ofList_toDigits, Nat.repr_eq_ofList_toDigits, String.toList_ofList,
      String.toList_ofList] at same
    rw [← Nat.ofDigitChars_ten_toDigits (n := m), same, Nat.ofDigitChars_ten_toDigits]
  have shown (p : Position) (x : List Char) : p.render.toList ++ x =
      p.line.repr.toList ++ ':' :: (p.column.repr.toList ++ x) := by
    change (p.line.repr ++ ":" ++ p.column.repr).toList ++ x = _
    simp
  rw [shown, shown] at same
  have lines := congrArg (List.takeWhile Char.isDigit) same
  rw [digits, digits] at lines
  rw [lines, append_cancel_left_eq, cons_inj_right] at same
  have columns := congrArg (List.takeWhile Char.isDigit) same
  rw [digits, digits] at columns
  rw [columns, append_cancel_left_eq, cons_inj_right, cons_inj_right] at same
  cases p
  cases q
  rw [Position.mk.injEq]
  exact ⟨⟨number lines, number columns⟩, same⟩

theorem exists_message (found : p.position? = some place) :
    ∃ rest, p.message.toList = place.render.toList ++ ':' :: ' ' :: 'S' :: rest := by
  have text (front rest : String) (starts : front.toList.take 3 = [':', ' ', 'S']) :
      ∃ chars, (place.render ++ front ++ rest).toList =
        place.render.toList ++ ':' :: ' ' :: 'S' :: chars := by
    refine ⟨front.toList.drop 3 ++ rest.toList, ?_⟩
    rw [String.toList_append, String.toList_append, ← take_append_drop 3 front.toList, starts]
    simp
  unfold Problem.position? at found
  split at found
  · next fault =>
      cases found
      exact text ": SyntaxError: " fault.message rfl
  · next fault =>
      cases found
      exact text ": SyntaxError: " fault.message rfl
  · next c =>
      cases found
      have spelled := text ": SyntaxError: unexpected character '" (toString c ++ "'") rfl
      rwa [← String.append_assoc] at spelled
  · next kind =>
      cases found
      have spelled := text ": SyntaxError: malformed " (kind.word ++ " declaration") rfl
      rwa [← String.append_assoc] at spelled
  · cases found

/-- Problems with the same wording stand at the same place. -/
theorem position?_eq_of_message_eq {other : Position} (first : p.position? = some place)
    (second : q.position? = some other) (same : p.message = q.message) : place = other := by
  obtain ⟨rest, spelled⟩ := exists_message first
  obtain ⟨rest', spelled'⟩ := exists_message second
  rw [same, spelled'] at spelled
  exact (render_injective spelled).1.symm

theorem message_ne_duplicateExport (found : p.position? = some place) (name : String) :
    p.message ≠ (Problem.duplicateExport name).message := by
  intro same
  obtain ⟨rest, spelled⟩ := exists_message found
  have first : Position.render ⟨1, 1⟩ = "1:1" := by decide
  have other : (Problem.duplicateExport name).message.toList =
      (Position.render ⟨1, 1⟩).toList ++ ':' :: ' ' :: 'T' ::
        ("ypeError: duplicate export '".toList ++ name.toList ++ ['\'']) := by
    change ("1:1: TypeError: duplicate export '" ++ name ++ "'").toList = _
    rw [first]
    simp
  rw [same, other] at spelled
  have starts := (render_injective spelled).2
  simp at starts

/-! ### Where problems come from -/

theorem isWritable_of_mem_brackets (member : t ∈ brackets ts) : isWritable t.kind = true := by
  obtain ⟨symbol, _, punct⟩ := any_eq_true.mp (mem_filter.mp member).2
  exact isWritable_of_isPunct punct

theorem exists_bracket {entry : Nat × BracketFault}
    (fault : entry ∈ bracketFaults [] (significant ts)) :
    ∃ t ∈ brackets ts, t.start = entry.1 := by
  obtain ⟨front, t, behind, split, start, _⟩ := isAbout_bracketFaults _ entry fault
  refine ⟨t, ?_, start⟩
  rw [← brackets_significant, split]
  exact mem_append_right _ mem_cons_self

theorem malformed_of_mem_lowerFirst {ctx : Context} {before : List Token} {number : Nat}
    {l : Lexeme} {rest : List Lexeme}
    (member : p ∈ (lowerFirst ctx before number l rest).item.problems)
    (other : p.isLexical = false) :
    isWritable l.token.kind = true ∧ ∃ kind, p = .malformed (ctx.position l.token) kind := by
  unfold lowerFirst at member
  split at member
  · next starts =>
      simp only [startsImport, Bool.and_eq_true] at starts
      unfold lowerImport at member
      split at member
      · cases mem_singleton.mp member
        exact ⟨isWritable_of_isWord starts.2.1, _, rfl⟩
      · cases member
  split at member
  · next starts =>
      rw [Bool.and_eq_true] at starts
      unfold lowerExport at member
      split at member
      · cases mem_singleton.mp member
        exact ⟨isWritable_of_isWord starts.2, _, rfl⟩
      · split at member <;> cases member
  · rw [problems_lowerToken, Option.mem_toList] at member
    rw [isLexical_of_lexical? member] at other
    cases other

theorem exists_token_of_mem_lowerFrom {ctx : Context} (other : p.isLexical = false)
    (before : List Token) (number : Nat) (ls : List Lexeme)
    (member : p ∈ (lowerFrom ctx before number ls).flatMap Item.problems) :
    ∃ t ∈ ls.map Lexeme.token, isWritable t.kind = true ∧
      ∃ kind, p = .malformed (ctx.position t) kind := by
  fun_induction lowerFrom ctx before number ls with
  | case1 => cases member
  | case2 before number l rest step before' number' remaining ih =>
    rw [flatMap_cons, mem_append] at member
    rcases member with here | later
    · exact ⟨l.token, mem_cons_self, malformed_of_mem_lowerFirst here other⟩
    · obtain ⟨t, inside, found⟩ := ih later
      have tokens : remaining.map Lexeme.token = (rest.map Lexeme.token).drop step.size :=
        map_token_remaining step rest
      rw [tokens] at inside
      exact ⟨t, mem_cons_of_mem _ (mem_of_mem_drop inside), found⟩

/-- Every other problem stands at a token that can be read, or has no place. -/
theorem exists_token_of_mem_lowerModule (member : p ∈ (lowerModule options source).problems)
    (other : p.isLexical = false) :
    (∃ name, p = .duplicateExport name) ∨ ∃ t ∈ scan source, isWritable t.kind = true ∧
      p.position? = some (Position.ofOffset source t.start) := by
  rw [problems_lowerModule, mem_append, mem_append] at member
  rcases member with (bracket | item) | repeated
  · obtain ⟨entry, fault, rfl⟩ := mem_map.mp bracket
    obtain ⟨t, inside, start⟩ := exists_bracket fault
    exact .inr ⟨t, mem_of_mem_filter inside, isWritable_of_mem_brackets inside,
      by rw [start]; rfl⟩
  · obtain ⟨t, inside, found, kind, rfl⟩ := exists_token_of_mem_lowerFrom other _ _ _ item
    rw [Lexeme.token_splitFrom] at inside
    exact .inr ⟨t, mem_of_mem_filter inside, found, rfl⟩
  · split at repeated
    · obtain ⟨name, _, rfl⟩ := mem_map.mp repeated
      exact .inl ⟨name, rfl⟩
    · cases repeated

theorem position?_of_lexical? (found : lexical? source t = some p) :
    p.position? = some (Position.ofOffset source t.start) := by
  unfold lexical? at found
  split at found
  · cases found
    rfl
  · cases found
    rfl
  · cases found

theorem isLexical_of_message_eq (member : t ∈ scan source) (found : lexical? source t = some p)
    (reported : q ∈ (lowerModule options source).problems) (same : q.message = p.message) :
    q.isLexical = true := by
  by_contra other
  have place := position?_of_lexical? found
  rw [Bool.not_eq_true] at other
  rcases exists_token_of_mem_lowerModule reported other with ⟨name, rfl⟩ | ⟨u, inside, can, there⟩
  · exact message_ne_duplicateExport place name same.symm
  · obtain rfl := eq_of_ofOffset_eq member inside (position?_eq_of_message_eq place there same.symm)
    rw [lexical?_eq_none_iff.mpr can] at found
    cases found

/-- The wording of an unreadable token occurs once among the errors. -/
theorem count_message_lowerModule (options : Options) (member : t ∈ scan source)
    (found : lexical? source t = some p) :
    ((lowerModule options source).problems.map Problem.message).count p.message = 1 := by
  have nodup : (scan source).Nodup := (placed_scan source).pairwise.imp fun {u v} before same => by
    rw [same] at before
    exact Nat.lt_irrefl _ before
  have here : ∀ u ∈ scan source,
      (((lexical? source u).map (·.message == p.message)).getD false = true ↔
        (u == t) = true) := by
    intro u inside
    rw [beq_iff_eq]
    constructor
    · intro same
      cases other : lexical? source u with
      | none => simp [other] at same
      | some q =>
        have equal : q.message = p.message := by simpa [other] using same
        exact eq_of_ofOffset_eq inside member (position?_eq_of_message_eq
          (position?_of_lexical? other) (position?_of_lexical? found) equal)
    · rintro rfl
      simp [found]
  calc ((lowerModule options source).problems.map Problem.message).count p.message
      = (lowerModule options source).problems.countP
          (fun q => q.message == p.message && q.isLexical) := by
        rw [List.count, countP_map]
        refine countP_congr fun q reported => ?_
        simp only [Function.comp_apply, Bool.and_eq_true, beq_iff_eq]
        exact ⟨fun same => ⟨same, isLexical_of_message_eq member found reported same⟩, And.left⟩
    _ = ((scan source).filterMap (lexical? source)).countP (·.message == p.message) := by
        rw [← lexical_lowerModule options source, countP_filter]
    _ = (scan source).count t := by
        rw [countP_filterMap, List.count]
        exact countP_congr here
    _ = 1 := by rw [nodup.count, if_pos member]

/-! ## Compiling -/

theorem problems_compile (code : options.kind ≠ .json) :
    (compile options source).problems = (lowerModule options source).problems ∨
      (lowerModule options source).problems = [] ∧
        ∃ problem, (compile options source).problems = [.notShortened problem] := by
  have generated : (generate options source).problems = (lowerModule options source).problems := by
    unfold generate
    split
    · next json => exact absurd json code
    · rfl
  rw [compile, ← generated]
  split
  · unfold shorten
    split
    · next usable =>
        split
        · exact .inl rfl
        · next problem _ => exact .inr ⟨List.isEmpty_iff.mp usable, problem, rfl⟩
    · exact .inl rfl
  · exact .inl rfl

/-- **No unreadable token is lost.** Whatever the declarations of a source of Somon or JavaScript
are, the problems of its tokens are reported when it is compiled: one for each token that cannot be
read, in the order of the tokens, with its fault or its character and the place where it starts. The
wordings come in this order among the errors, each of them once. So a source whose code is usable
has no such token. -/
theorem unreadable_tokens_reported (options : Options) (source : String)
    (code : options.kind ≠ .json) :
    (compile options source).problems.filter Problem.isLexical =
        (scan source).filterMap (lexical? source) ∧
      (((scan source).filterMap (lexical? source)).map Problem.message).Sublist
        (compile options source).errors ∧
      (∀ t ∈ scan source, ∀ p ∈ lexical? source t,
        (compile options source).errors.count p.message = 1) ∧
      ((compile options source).isUsable = true →
        ∀ t ∈ scan source, (∀ fault, t.kind ≠ .fault fault) ∧ ∀ c, t.kind ≠ .stray c) := by
  have lowered := lexical_lowerModule options source
  have readable (none : (scan source).filterMap (lexical? source) = []) :
      ∀ t ∈ scan source, isWritable t.kind = true := by
    intro t member
    exact lexical?_eq_none_iff.mp (filterMap_eq_nil_iff.mp none t member)
  have reported : (compile options source).problems.filter Problem.isLexical =
      (scan source).filterMap (lexical? source) := by
    rcases problems_compile code with same | ⟨quiet, problem, alone⟩
    · rw [same, lowered]
    · rw [quiet, filter_nil] at lowered
      rw [alone, ← lowered]
      rfl
  refine ⟨reported, ?_, ?_, ?_⟩
  · rw [← reported]
    exact (filter_sublist).map Problem.message
  · intro t member p found
    rcases problems_compile code with same | ⟨quiet, _⟩
    · rw [Output.errors, same]
      exact count_message_lowerModule options member found
    · rw [quiet, filter_nil] at lowered
      rw [lexical?_eq_none_iff.mpr (readable lowered.symm t member)] at found
      cases found
  · intro usable t member
    rw [List.isEmpty_iff.mp usable, filter_nil] at reported
    have can := readable reported.symm t member
    constructor
    · intro fault kind
      rw [kind] at can
      cases can
    · intro c kind
      rw [kind] at can
      cases can

/-- An import that cannot be understood, with a character that starts nothing in the place of its
names and a string that is not closed. -/
theorem unreadable_tokens_reported_malformed :
    let source := "import § from 'a"
    (compile {} source).problems.filter Problem.isLexical =
        [.stray ⟨1, 8⟩ '§', .unreadable ⟨1, 15⟩ .openString] ∧
      ["1:8: SyntaxError: unexpected character '§'",
        "1:15: SyntaxError: unterminated string literal"].Sublist (compile {} source).errors ∧
      (compile {} source).isUsable = false := by
  intro source
  have computed : (scan source).filterMap (lexical? source) =
      [.stray ⟨1, 8⟩ '§', .unreadable ⟨1, 15⟩ .openString] := by
    decide +kernel
  obtain ⟨reported, worded, _, _⟩ := unreadable_tokens_reported {} source (by decide)
  rw [computed] at reported worded
  refine ⟨reported, worded, ?_⟩
  rw [← Bool.not_eq_true]
  intro quiet
  rw [List.isEmpty_iff.mp quiet] at reported
  cases reported

end Tarkib.Compile
