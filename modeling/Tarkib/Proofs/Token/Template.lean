import Tarkib.Proofs.Compile.Outline
import Tarkib.Proofs.Fallible

/-!
# Substitutions in templates

The reader of a template goes through a substitution with a smaller set of rules than those by which
tokens are read: it looks for braces, strings and further templates, not for comments and regular
expressions. The template whose only substitution is a given code (`templated`) shows where the two
part. With a quote or brace in a comment or regular expression it may end too early or not at all.

The reader keeps the places it is nested in, and `placesAfter` says which these are behind a text.
-/

namespace Tarkib.Token

open Tarkib.Compile List

variable {code : String} {c : Char} {cs : List Char}

/-! ## Substitutions -/

/-- The text closes the template at its last character, from the given place on. -/
def Closed (here : Level) (outer : List Level) (cs : List Char) : Prop :=
  ∃ value, readTemplate here outer cs = ⟨.ok value, cs.length⟩

/-- Characters with a meaning inside a substitution. -/
def substitutionChars : List Char :=
  ['\x22', '\x27', '\x60', '\x7b', '\x7d']

/-- Characters without a meaning inside a substitution. -/
def isQuiet (c : Char) : Bool :=
  !substitutionChars.contains c

theorem isQuiet_of_isDull (dull : isDull c = true) : isQuiet c = true := by
  rw [isQuiet, Bool.not_eq_true', ← Bool.not_eq_true, contains_iff_mem]
  intro inside
  have meaning : substitutionChars.all (fun c => !isDull c) = true := by decide
  have here := all_eq_true.mp meaning c inside
  rw [dull] at here
  cases here

theorem ne_of_isQuiet (quiet : isQuiet c = true) :
    (c == '\x22' || c == '\x27') = false ∧ c ≠ '\x60' ∧ c ≠ '\x7b' ∧ c ≠ '\x7d' := by
  simpa [isQuiet, substitutionChars, and_assoc] using quiet

section Closed

variable {depth : Nat} {place : Level} {places outer : List Level}

theorem Closed.quiet (quiet : isQuiet c = true) (rest : Closed (.code depth) outer cs) :
    Closed (.code depth) outer (c :: cs) := by
  obtain ⟨value, found⟩ := rest
  obtain ⟨noString, noTemplate, noOpening, noClosing⟩ := ne_of_isQuiet quiet
  refine ⟨value, ?_⟩
  rw [readTemplate, noString, if_neg Bool.false_ne_true, found]
  · rfl
  · exact noOpening
  · exact noClosing
  · exact noTemplate

theorem Closed.append {front : List Char} (quiet : ∀ c ∈ front, isQuiet c = true)
    (rest : Closed (.code depth) outer cs) : Closed (.code depth) outer (front ++ cs) := by
  induction front with
  | nil => exact rest
  | cons c front ih =>
    obtain ⟨here, later⟩ := forall_mem_cons.mp quiet
    exact (ih later).quiet here

theorem Closed.opening (rest : Closed (.code (depth + 1)) outer cs) :
    Closed (.code depth) outer ('\x7b' :: cs) := by
  obtain ⟨value, found⟩ := rest
  exact ⟨value, by rw [readTemplate, found]; rfl⟩

theorem Closed.closing (rest : Closed (.code (depth + 1)) outer cs) :
    Closed (.code (depth + 2)) outer ('\x7d' :: cs) := by
  obtain ⟨value, found⟩ := rest
  refine ⟨value, ?_⟩
  rw [readTemplate]
  · exact congrArg (Reading.later 1) found
  · intro place places last
    omega

theorem Closed.quoted {quote : Char} (closed : (readString quote cs).value.isSome = true)
    (rest : Closed place places (cs.drop (readString quote cs).size)) :
    Closed (.quoted quote) (place :: places) cs := by
  fun_induction readString quote cs with
  | case1 | case2 | case3 => cases closed
  | case4 c cs ih =>
    obtain ⟨value, found⟩ := ih (by simpa using closed) (by simpa using rest)
    exact ⟨value, by simp [readTemplate, found, Reading.later]⟩
  | case5 c cs noFeed noEnd noEscape closes =>
    obtain ⟨value, found⟩ := rest
    refine ⟨value, ?_⟩
    rw [readTemplate_quoted_cons noFeed (ne_backslash noEnd noEscape), if_pos closes]
    exact congrArg (Reading.later 1) found
  | case6 c cs noFeed noEnd noEscape differs ih =>
    obtain ⟨value, found⟩ := ih (by simpa using closed) (by simpa using rest)
    refine ⟨value, ?_⟩
    rw [readTemplate_quoted_cons noFeed (ne_backslash noEnd noEscape), if_neg differs, found]
    rfl

theorem getLast?_code (bottom : (Level.code depth :: outer).getLast? = some .text) (other : Nat) :
    (Level.code other :: outer).getLast? = some .text := by
  cases outer with
  | nil => cases bottom
  | cons place places => exact bottom

/-- A template inside a substitution leads back to it. -/
theorem Closed.nested {here : Level} {value : TemplateValue}
    (bottom : (here :: outer).getLast? = some .text)
    (closed : (readTemplate here outer cs).value = .ok value)
    (rest : Closed place places (cs.drop (readTemplate here outer cs).size)) :
    Closed here (outer ++ place :: places) cs := by
  fun_induction readTemplate here outer cs generalizing value with
  | case1 | case4 | case14 | case15 | case17 => cases closed
  | case2 =>
    obtain ⟨value, found⟩ := rest
    exact ⟨value, by rw [nil_append, readTemplate]; exact congrArg (Reading.later 1) found⟩
  | case3 cs place places ih | case9 cs place places ih =>
    obtain ⟨value, found⟩ := ih bottom closed rest
    exact ⟨value, by rw [cons_append, readTemplate, found]; rfl⟩
  | case5 outer d ds ih =>
    obtain ⟨inner, closed, _⟩ := exists_ok_of_map closed
    obtain ⟨value, found⟩ := ih bottom closed rest
    exact ⟨_, by rw [readTemplate, found]; rfl⟩
  | case6 outer ds ih =>
    obtain ⟨inner, closed, _⟩ := exists_ok_of_map closed
    obtain ⟨value, found⟩ := ih bottom closed rest
    exact ⟨_, by rw [readTemplate, ← cons_append, found]; rfl⟩
  | case7 outer c cs noClosing noEnd noEscape noOpening ih =>
    obtain ⟨inner, closed, _⟩ := exists_ok_of_map closed
    obtain ⟨value, found⟩ := ih bottom closed rest
    have plain : c = '$' → cs.head? ≠ some '\x7b' := by
      intro dollar brace
      obtain ⟨ds, rfl⟩ := head?_eq_some_iff.mp brace
      exact noOpening ds dollar rfl
    refine ⟨value.add (outer ++ place :: places) [c], ?_⟩
    rw [readTemplate_text_cons _ noClosing (ne_backslash noEnd noEscape) plain, found]
    rfl
  | case8 outer cs depth ih => exact (ih (getLast?_code bottom _) closed rest).opening
  | case10 cs depth outer notLast ih =>
    obtain ⟨value, found⟩ := ih (getLast?_code bottom _) closed rest
    refine ⟨value, ?_⟩
    cases outer with
    | nil => cases bottom
    | cons first others =>
      rw [readTemplate, found]
      · rfl
      · intro first' others' last same
        exact notLast first others last rfl
  | case11 outer cs depth ih =>
    obtain ⟨value, found⟩ := ih bottom closed rest
    exact ⟨value, by rw [readTemplate, ← cons_append, found]; rfl⟩
  | case12 outer cs depth c noOpening noClosing noTemplate quote ih =>
    obtain ⟨value, found⟩ := ih bottom closed rest
    refine ⟨value, ?_⟩
    rw [readTemplate, if_pos quote, ← cons_append, found]
    · rfl
    all_goals assumption
  | case13 outer cs depth c noOpening noClosing noTemplate noQuote ih =>
    obtain ⟨value, found⟩ := ih bottom closed rest
    refine ⟨value, ?_⟩
    rw [readTemplate, if_neg noQuote, found]
    · rfl
    all_goals assumption
  | case16 outer quote d ds ih =>
    obtain ⟨value, found⟩ := ih bottom closed rest
    exact ⟨value, by rw [readTemplate, found]; rfl⟩
  | case18 quote c cs noFeed noEnd noEscape closes place places ih =>
    obtain ⟨value, found⟩ := ih bottom closed rest
    refine ⟨value, ?_⟩
    rw [readTemplate_quoted_cons noFeed (ne_backslash noEnd noEscape), if_pos closes]
    exact congrArg (Reading.later 1) found
  | case19 outer quote c cs noFeed noEnd noEscape differs ih =>
    obtain ⟨value, found⟩ := ih bottom closed rest
    refine ⟨value, ?_⟩
    rw [readTemplate_quoted_cons noFeed (ne_backslash noEnd noEscape), if_neg differs, found]
    rfl

end Closed

/-! ## Tokens in a substitution -/

/-- Kinds of tokens that a reader of a substitution does not know. -/
def Kind.isUnknown : Kind → Bool
  | .lineComment | .blockComment | .regex => true
  | _ => false

/-- Whether the token is a comment or regular expression that has a character with a meaning in a
substitution. -/
def misleads (t : Token) : Bool :=
  t.kind.isUnknown && !t.text.toList.all isQuiet

theorem misleads_eq_false {t : Token}
    (quiet : t.kind = .lineComment ∨ t.kind = .blockComment ∨ t.kind = .regex →
      ∀ c ∈ t.text.toList, c ∉ substitutionChars) : t.misleads = false := by
  cases unknown : t.kind.isUnknown with
  | false => rw [misleads, unknown, Bool.false_and]
  | true =>
    have named : t.kind = .lineComment ∨ t.kind = .blockComment ∨ t.kind = .regex := by
      cases kind : t.kind <;> simp_all [Kind.isUnknown]
    have all : t.text.toList.all isQuiet = true :=
      all_eq_true.mpr fun c member => by simpa [isQuiet] using quiet named c member
    rw [misleads, all, Bool.not_true, Bool.and_false]

/-- The number of braces that have to be closed before a substitution ends, if the given brackets
are open in it. -/
def depthOf (stack : List Bracket) : Nat :=
  stack.count .curly + 1

@[simp]
theorem depthOf_cons (b : Bracket) (stack : List Bracket) :
    depthOf (b :: stack) = depthOf stack + if b = .curly then 1 else 0 := by
  cases b <;> simp [depthOf]

theorem quiet_slash {operand : Bool} (ends : (read operand '/' cs).value.isFault = false)
    (quiet : (read operand '/' cs).value.isUnknown = true →
      ∀ d ∈ '/' :: cs.take (read operand '/' cs).size, isQuiet d = true) :
    isPlain (read operand '/' cs).value = true ∧
      ∀ d ∈ '/' :: cs.take (read operand '/' cs).size, isQuiet d = true := by
  have unknown {kind : Kind} (unknown : kind.isUnknown = true) : isPlain kind = true := by
    cases kind <;> first | rfl | cases unknown
  suffices known : (read operand '/' cs).value.isUnknown = false →
      isPlain (read operand '/' cs).value = true ∧
        ∀ d ∈ '/' :: cs.take (read operand '/' cs).size, isQuiet d = true by
    cases kind : (read operand '/' cs).value.isUnknown with
    | true => exact ⟨unknown kind, quiet kind⟩
    | false => exact known kind
  intro known
  cases opening operand '/' cs with
  | blank space => exact absurd space (by decide)
  | comment slash opens =>
    cases cs with
    | nil => cases opens
    | cons d ds =>
      have second : d = '/' ∨ d = '*' := by simpa using opens
      rcases second with rfl | rfl
      · rw [read_lineComment] at known
        cases known
      · rw [read_blockComment] at known ends
        cases closed : (readComment false ds).value <;>
          simp [closed, Kind.isFault, Kind.isUnknown] at known ends
  | regex slash operand noComment =>
    subst operand
    rw [read_regex noComment.1 noComment.2] at known ends
    cases closed : (readRegex false cs).value <;>
      simp [closed, Kind.isFault, Kind.isUnknown] at known ends
  | string quote => cases quote
  | template mark => cases mark
  | number noSpace digit => cases digit
  | identifier noSpace noDigit start => exact absurd start (by decide +kernel)
  | stray opens noPunct => cases noPunct
  | punct opens punct slash point =>
    have spec := readPunct_spec '/' cs
    rw [read_punct opens punct slash point, spec.value]
    refine ⟨isPlain_punct (by decide) _, ?_⟩
    rcases spec.operator with none | member
    · rw [none, take_zero]
      exact forall_mem_singleton.mpr rfl
    · have checked : ∀ op ∈ operators, op.toList.all isQuiet = true := by decide
      have here := checked _ member
      rw [String.toList_ofList] at here
      exact all_eq_true.mp here

section Step

variable {operand : Bool} {outer : List Level} {depth : Nat} {behind : List Char}

theorem Closed.string (quote : opensString c = true)
    (ends : (read operand c cs).value.isFault = false) (rest : Closed (.code depth) outer behind) :
    isPlain (read operand c cs).value = true ∧
      Closed (.code depth) outer (c :: cs.take (read operand c cs).size ++ behind) := by
  rw [read_string quote] at ends ⊢
  have closed : (readString c cs).value.isSome = true := by
    cases value : (readString c cs).value with
    | none =>
      rw [Reading.value_map, value] at ends
      cases ends
    | some => rfl
  have again := readString_take (.inl closed) behind
  refine ⟨?_, ?_⟩
  · obtain ⟨value, found⟩ := Option.isSome_iff_exists.mp closed
    rw [Reading.value_map, found]
    rfl
  · have taken : (cs.take (readString c cs).size ++ behind).drop (readString c cs).size = behind :=
      drop_left' (length_take_of_le (size_readString_le c cs))
    have inner : Closed (.quoted c) (.code depth :: outer)
        (cs.take (readString c cs).size ++ behind) := by
      apply Closed.quoted
      · rw [again]
        exact closed
      · rw [again, taken]
        exact rest
    obtain ⟨value, found⟩ := inner
    refine ⟨value, ?_⟩
    rw [Reading.size_map, cons_append, readTemplate, if_pos (by exact quote), found]
    · rfl
    all_goals rintro rfl; cases quote

theorem Closed.template (ends : (read operand '\x60' cs).value.isFault = false)
    (rest : Closed (.code depth) outer behind) :
    isPlain (read operand '\x60' cs).value = true ∧
      Closed (.code depth) outer ('\x60' :: cs.take (read operand '\x60' cs).size ++ behind) := by
  rw [read_template] at ends ⊢
  obtain ⟨value, closed⟩ : ∃ value, (readTemplate .text [] cs).value = .ok value := by
    cases found : (readTemplate .text [] cs).value with
    | error =>
      rw [Reading.value_map, found] at ends
      cases ends
    | ok value => exact ⟨value, rfl⟩
  have again := readTemplate_take (.inl (by rw [closed]; rfl)) behind
  refine ⟨?_, ?_⟩
  · rw [Reading.value_map, closed]
    rfl
  · have taken : (cs.take (readTemplate .text [] cs).size ++ behind).drop
        (readTemplate .text [] cs).size = behind :=
      drop_left' (length_take_of_le (size_readTemplate_le .text [] cs))
    have inner : Closed .text ([] ++ .code depth :: outer)
        (cs.take (readTemplate .text [] cs).size ++ behind) := by
      refine Closed.nested rfl (show _ = Except.ok value from ?_) ?_
      · rw [again]
        exact closed
      · rw [again, taken]
        exact rest
    obtain ⟨value, found⟩ := inner
    refine ⟨value, ?_⟩
    rw [nil_append] at found
    rw [Reading.size_map, cons_append, readTemplate, found]
    rfl

/-- A token that does not mislead the reader leads it on. -/
theorem Closed.token (ends : (read operand c cs).value.isFault = false)
    (quiet : (read operand c cs).value.isUnknown = true →
      ∀ d ∈ c :: cs.take (read operand c cs).size, isQuiet d = true)
    {stack stack' : List Bracket}
    (after : openAfter stack [(read operand c cs).value] = some stack')
    (rest : Closed (.code (depthOf stack')) outer behind) :
    Closed (.code (depthOf stack)) outer (c :: cs.take (read operand c cs).size ++ behind) := by
  have same (plain : isPlain (read operand c cs).value = true) : stack' = stack := by
    rw [openAfter_plain _ _ plain] at after
    exact (Option.some.inj after).symm
  cases string : opensString c with
  | true =>
    obtain ⟨plain, closed⟩ := rest.string string ends
    rw [← same plain]
    exact closed
  | false =>
  by_cases template : c = '\x60'
  · subst template
    obtain ⟨plain, closed⟩ := rest.template ends
    rw [← same plain]
    exact closed
  by_cases slash : c = '/'
  · subst slash
    obtain ⟨plain, quiet⟩ := quiet_slash ends quiet
    rw [← same plain]
    exact rest.append quiet
  have other : opensOther c = false := by simp [opensOther, template, slash]
  have outlined := outlined_read string other operand cs
  have taken : ∀ d ∈ cs.take (read operand c cs).size, isQuiet d = true :=
    fun d member => isQuiet_of_isDull (outlined.dull d member)
  cases bracket : isBracketChar c with
  | true =>
    rw [outlined.bracket bracket] at after
    have brackets : c = '(' ∨ c = ')' ∨ c = '[' ∨ c = ']' ∨ c = '\x7b' ∨ c = '\x7d' := by
      simpa [isBracketChar] using bracket
    rcases brackets with rfl | rfl | rfl | rfl | rfl | rfl
    · obtain rfl : .round :: stack = stack' := Option.some.inj after
      exact (rest.append taken).quiet (by decide)
    · obtain ⟨_, rfl, left⟩ := exists_of_openAfter_closing (b := .round) after
      obtain rfl := Option.some.inj left
      exact (rest.append taken).quiet (by decide)
    · obtain rfl : .square :: stack = stack' := Option.some.inj after
      exact (rest.append taken).quiet (by decide)
    · obtain ⟨_, rfl, left⟩ := exists_of_openAfter_closing (b := .square) after
      obtain rfl := Option.some.inj left
      exact (rest.append taken).quiet (by decide)
    · obtain rfl : .curly :: stack = stack' := Option.some.inj after
      rw [depthOf_cons] at rest
      exact (rest.append taken).opening
    · obtain ⟨_, rfl, left⟩ := exists_of_openAfter_closing (b := .curly) after
      obtain rfl := Option.some.inj left
      rw [depthOf_cons]
      exact (rest.append taken).closing
  | false =>
    have dull := isDull_iff.mpr ⟨string, other, bracket⟩
    rw [← same (outlined.plain bracket)]
    exact rest.append (forall_mem_cons.mpr ⟨isQuiet_of_isDull dull, taken⟩)

end Step

theorem isPlain_of_trivia {kind : Kind} (trivia : kind.isSignificant = false) :
    isPlain kind = true := by
  cases kind <;> first | rfl | cases trivia

/-- A code that can be read and whose brackets are balanced leads it back, unless something misleads
it. -/
theorem Closed.tokens (operand : Bool) (start : Nat) (cs : List Char) (stack : List Bracket)
    (ends : ∀ t ∈ scanFrom operand start cs, t.kind.isFault = false)
    (quiet : ∀ t ∈ scanFrom operand start cs, t.misleads = false)
    (balanced : openAfter stack ((significant (scanFrom operand start cs)).map Token.kind) =
      some []) {outer : List Level} {behind : List Char} (rest : Closed (.code 1) outer behind) :
    Closed (.code (depthOf stack)) outer (cs ++ behind) := by
  fun_induction scanFrom operand start cs generalizing stack with
  | case1 =>
    obtain rfl : stack = [] := Option.some.inj balanced
    exact rest
  | case2 operand start c cs reading token operand' ih =>
    obtain ⟨endsHere, endsLater⟩ := forall_mem_cons.mp ends
    obtain ⟨quietHere, quietLater⟩ := forall_mem_cons.mp quiet
    obtain ⟨stack', after, later⟩ : ∃ stack', openAfter stack [reading.value] = some stack' ∧
        openAfter stack' ((significant (scanFrom operand' token.stop
          (cs.drop reading.size))).map Token.kind) = some [] := by
      cases word : reading.value.isSignificant with
      | true =>
        rw [significant, filter_cons_of_pos (by exact word), map_cons,
          ← singleton_append, openAfter_append] at balanced
        exact Option.bind_eq_some_iff.mp balanced
      | false =>
        rw [significant, filter_cons_of_neg (Bool.not_eq_true _ ▸ word)] at balanced
        exact ⟨stack, openAfter_plain _ _ (isPlain_of_trivia word), balanced⟩
    have here : reading.value.isUnknown = true →
        ∀ d ∈ c :: cs.take reading.size, isQuiet d = true := by
      intro unknown
      have loud : (token.kind.isUnknown && !token.text.toList.all isQuiet) = false := quietHere
      rw [show token.kind.isUnknown = true from unknown, Bool.true_and, Bool.not_eq_false',
        String.toList_ofList] at loud
      exact all_eq_true.mp loud
    have inner := ih stack' endsLater quietLater later
    have whole := inner.token endsHere here after
    rwa [cons_append, ← append_assoc, take_append_drop] at whole

/-! ## Places -/

/-- The places a reader of a template is in behind a text, innermost first: `here` is the innermost
one before the text and `outer` are the places around it. There are none if the template or one of
its strings has ended. A backslash at the end of the text leaves the reader where it is. -/
def placesAfter (here : Level) (outer : List Level) : List Char → Option (List Level)
  | [] => some (here :: outer)
  | c :: cs =>
    match here with
    | .text =>
      match c, cs with
      | '\x60', cs =>
        match outer with
        | [] => none
        | place :: places => placesAfter place places cs
      | '\\', [] => some (.text :: outer)
      | '\\', _ :: ds => placesAfter .text outer ds
      | '$', '\x7b' :: ds => placesAfter (.code 1) (.text :: outer) ds
      | _, cs => placesAfter .text outer cs
    | .code depth =>
      match c with
      | '\x7b' => placesAfter (.code (depth + 1)) outer cs
      | '\x7d' =>
        match depth, outer with
        | 1, place :: places => placesAfter place places cs
        | depth, outer => placesAfter (.code (depth - 1)) outer cs
      | '\x60' => placesAfter .text (.code depth :: outer) cs
      | c =>
        if c == '\x22' || c == '\x27' then placesAfter (.quoted c) (.code depth :: outer) cs
        else placesAfter (.code depth) outer cs
    | .quoted quote =>
      match c, cs with
      | '\n', _ => none
      | '\\', [] => some (.quoted quote :: outer)
      | '\\', _ :: ds => placesAfter (.quoted quote) outer ds
      | c, cs =>
        if c == quote then
          match outer with
          | [] => none
          | place :: places => placesAfter place places cs
        else placesAfter (.quoted quote) outer cs

def ending : List Char :=
  ['\n', '\x7d', '\x60']

def ProperlyQuoted (places : List Level) : Prop :=
  ∀ quote, .quoted quote ∈ places → quote = '\x22' ∨ quote = '\x27'

def IsBack (places : List Level) : Prop :=
  places = [.code 1, .text] ∨ places = [.text]

section Places

variable {here place : Level} {outer places : List Level} {ds : List Char}

theorem ProperlyQuoted.tail (proper : ProperlyQuoted (here :: outer)) : ProperlyQuoted outer :=
  fun quote member => proper quote (.tail _ member)

theorem ProperlyQuoted.cons (proper : ProperlyQuoted outer)
    (first : ∀ quote, here = .quoted quote → quote = '\x22' ∨ quote = '\x27') :
    ProperlyQuoted (here :: outer) := by
  intro quote member
  rcases mem_cons.mp member with same | member
  · exact first quote same.symm
  · exact proper quote member

theorem Closed.iff_of_later (n : Nat) (size : cs.length = ds.length + n)
    (step : readTemplate here outer cs = (readTemplate place places ds).later n) :
    Closed here outer cs ↔ Closed place places ds := by
  rw [Closed, Closed, step, size]
  cases readTemplate place places ds
  simp [Reading.later]

theorem Closed.iff_of_map (n : Nat) (size : cs.length = ds.length + n)
    {f : TemplateValue → TemplateValue}
    (step : readTemplate here outer cs =
      ((readTemplate place places ds).map (Except.map f)).later n) :
    Closed here outer cs ↔ Closed place places ds := by
  rw [Closed, Closed, step, size]
  cases readTemplate place places ds with
  | mk value => cases value <;> simp [Reading.later, Reading.map, Except.map]

theorem not_closed_of_error (problem : Fault)
    (fails : (readTemplate here outer cs).value = .error problem) : ¬ Closed here outer cs := by
  rintro ⟨value, closed⟩
  rw [closed] at fails
  cases fails

variable (proper : ProperlyQuoted (here :: outer))
include proper

theorem closed_backquote_iff : Closed here outer ['\x60'] ↔ here :: outer = [.text] := by
  cases here with
  | text =>
    cases outer with
    | nil => exact iff_of_true ⟨⟨[], false⟩, rfl⟩ rfl
    | cons place places => exact iff_of_false (not_closed_of_error _ rfl) (by simp)
  | code depth => exact iff_of_false (not_closed_of_error _ rfl) (by simp)
  | quoted quote =>
    have other : ¬ ('\x60' == quote) = true := by
      rcases proper quote (.head _) with rfl | rfl <;> decide
    refine iff_of_false (not_closed_of_error .openString ?_) (by simp)
    rw [readTemplate_quoted_cons (by decide) (by decide), if_neg other]
    rfl

theorem closed_brace_iff : Closed here outer ['\x7d', '\x60'] ↔ IsBack (here :: outer) := by
  have none {depth : Nat} {outer : List Level} (proper : ProperlyQuoted outer) :
      ¬ Closed (.code depth) outer ['\x60'] := by
    rw [closed_backquote_iff (proper.cons (by simp))]
    simp
  cases here with
  | text =>
    have step : Closed .text outer ['\x7d', '\x60'] ↔ Closed .text outer ['\x60'] :=
      Closed.iff_of_map 1 rfl rfl
    rw [step, closed_backquote_iff proper]
    simp [IsBack]
  | code depth =>
    by_cases last : depth = 1 ∧ outer ≠ []
    · obtain ⟨rfl, inside⟩ := last
      obtain ⟨place, places, rfl⟩ := exists_cons_of_ne_nil inside
      have step : Closed (.code 1) (place :: places) ['\x7d', '\x60'] ↔
          Closed place places ['\x60'] :=
        Closed.iff_of_later 1 rfl rfl
      rw [step, closed_backquote_iff proper.tail]
      simp [IsBack]
    · have step : Closed (.code depth) outer ['\x7d', '\x60'] ↔
          Closed (.code (depth - 1)) outer ['\x60'] := by
        refine Closed.iff_of_later 1 rfl ?_
        rw [readTemplate]
        rintro place places rfl rfl
        exact last ⟨rfl, cons_ne_nil _ _⟩
      rw [step]
      refine iff_of_false (none proper.tail) ?_
      rintro (back | back) <;> simp_all
  | quoted quote =>
    have other : ¬ ('\x7d' == quote) = true := by
      rcases proper quote (.head _) with rfl | rfl <;> decide
    have step : Closed (.quoted quote) outer ['\x7d', '\x60'] ↔
        Closed (.quoted quote) outer ['\x60'] := by
      refine Closed.iff_of_later 1 rfl ?_
      rw [readTemplate_quoted_cons (by decide) (by decide), if_neg other]
    rw [step, closed_backquote_iff proper]
    simp [IsBack]

theorem closed_ending_iff : Closed here outer ending ↔ IsBack (here :: outer) := by
  cases here with
  | text => exact (Closed.iff_of_map 1 rfl rfl).trans (closed_brace_iff proper)
  | code depth => exact (Closed.iff_of_later 1 rfl rfl).trans (closed_brace_iff proper)
  | quoted quote => exact iff_of_false (not_closed_of_error _ rfl) (by simp [IsBack])

/-- The template ends with the text exactly if the reader is back in the substitution, or in its
text. -/
theorem closed_append_ending_iff :
    Closed here outer (cs ++ ending) ↔ ∃ places ∈ placesAfter here outer cs, IsBack places := by
  fun_induction placesAfter here outer cs with
  | case1 here outer => simpa using closed_ending_iff proper
  | case2 cs =>
    refine iff_of_false ?_ (by simp)
    rintro ⟨value, closed⟩
    have size := congrArg Reading.size closed
    simp [readTemplate, ending] at size
  | case3 cs place places ih =>
    exact (Closed.iff_of_later 1 rfl rfl).trans (ih proper.tail)
  | case4 outer =>
    have step : Closed .text outer (['\\'] ++ ending) ↔ Closed .text outer ['\x7d', '\x60'] :=
      Closed.iff_of_map 2 rfl rfl
    simpa using step.trans (closed_brace_iff proper)
  | case5 outer d ds ih => exact (Closed.iff_of_map 2 rfl rfl).trans (ih proper)
  | case6 outer ds ih =>
    exact (Closed.iff_of_map 2 rfl rfl).trans (ih ((proper.tail.cons (by simp)).cons (by simp)))
  | case7 outer c cs noClosing noEnd noEscape noOpening ih =>
    refine (Closed.iff_of_map 1 rfl
      (readTemplate_text_cons outer noClosing (ne_backslash noEnd noEscape) ?_)).trans (ih proper)
    intro dollar brace
    cases cs with
    | nil => simp [ending] at brace
    | cons d ds => exact noOpening ds dollar (by simpa using brace)
  | case8 outer cs depth ih =>
    exact (Closed.iff_of_later 1 rfl rfl).trans (ih (proper.tail.cons (by simp)))
  | case9 cs place places ih => exact (Closed.iff_of_later 1 rfl rfl).trans (ih proper.tail)
  | case10 cs depth outer notLast ih =>
    refine (Closed.iff_of_later 1 rfl ?_).trans (ih (proper.tail.cons (by simp)))
    rw [cons_append, readTemplate]
    exact notLast
  | case11 outer cs depth ih =>
    exact (Closed.iff_of_later 1 rfl rfl).trans (ih (proper.cons (by simp)))
  | case12 outer cs depth c noOpening noClosing noTemplate quote ih =>
    refine (Closed.iff_of_later 1 rfl ?_).trans (ih (proper.cons ?_))
    · rw [cons_append, readTemplate, if_pos quote] <;> assumption
    · rintro _ ⟨⟩
      simpa using quote
  | case13 outer cs depth c noOpening noClosing noTemplate noQuote ih =>
    refine (Closed.iff_of_later 1 rfl ?_).trans (ih proper)
    rw [cons_append, readTemplate, if_neg noQuote] <;> assumption
  | case14 outer cs quote => exact iff_of_false (not_closed_of_error _ rfl) (by simp)
  | case15 outer quote =>
    have step : Closed (.quoted quote) outer (['\\'] ++ ending) ↔
        Closed (.quoted quote) outer ['\x7d', '\x60'] :=
      Closed.iff_of_later 2 rfl rfl
    simpa using step.trans (closed_brace_iff proper)
  | case16 outer quote d ds ih => exact (Closed.iff_of_later 2 rfl rfl).trans (ih proper)
  | case17 quote c cs noFeed noEnd noEscape closes =>
    refine iff_of_false (not_closed_of_error .openTemplate ?_) (by simp)
    rw [cons_append, readTemplate_quoted_cons noFeed (ne_backslash noEnd noEscape), if_pos closes]
  | case18 quote c cs noFeed noEnd noEscape closes place places ih =>
    refine (Closed.iff_of_later 1 rfl ?_).trans (ih proper.tail)
    rw [cons_append, readTemplate_quoted_cons noFeed (ne_backslash noEnd noEscape), if_pos closes]
  | case19 outer quote c cs noFeed noEnd noEscape differs ih =>
    refine (Closed.iff_of_later 1 rfl ?_).trans (ih proper)
    rw [cons_append, readTemplate_quoted_cons noFeed (ne_backslash noEnd noEscape), if_neg differs]

end Places

/-! ## Templates -/

/-- The template whose only substitution is the given code. -/
def templated (code : String) : String :=
  "\x60$\x7b" ++ code ++ "\n\x7d\x60"

/-- The tokens are one template. -/
def IsTemplate (tokens : List Token) : Prop :=
  ∃ t raw substituted, tokens = [t] ∧ t.kind = .template raw substituted

theorem toList_templated (code : String) :
    (templated code).toList = '\x60' :: '$' :: '\x7b' :: (code.toList ++ ending) := by
  simp [templated, ending]

theorem closed_of_scanFrom {raw : String} {substituted : Bool}
    (alone : scanFrom true 0 ('\x60' :: cs) =
      [⟨.template raw substituted, String.ofList ('\x60' :: cs), 0⟩]) :
    Closed .text [] cs := by
  rw [scanFrom, read_template] at alone
  have first := (List.cons.inj alone).1
  have kind : Kind.ofTemplate (readTemplate .text [] cs).value = .template raw substituted :=
    congrArg Token.kind first
  have text := congrArg (fun t => t.text.length) first
  have size : (readTemplate .text [] cs).size = cs.length := by
    have bound := size_readTemplate_le .text [] cs
    simp at text
    omega
  cases value : (readTemplate .text [] cs).value with
  | error problem =>
    rw [value] at kind
    cases kind
  | ok value' => exact ⟨value', by rw [← value, ← size]⟩

/-- The whole is one template exactly if it is closed at its end. -/
theorem exists_scan_templated_iff :
    (∃ raw, scan (templated code) = [⟨.template raw true, templated code, 0⟩]) ↔
      Closed (.code 1) [.text] (code.toList ++ ending) := by
  have step : Closed .text [] ('$' :: '\x7b' :: (code.toList ++ ending)) ↔
      Closed (.code 1) [.text] (code.toList ++ ending) :=
    Closed.iff_of_map 2 rfl rfl
  have spelled := String.toList_inj.mp ((toList_templated code).trans String.toList_ofList.symm)
  constructor
  · rintro ⟨raw, whole⟩
    rw [scan, toList_templated, spelled] at whole
    exact step.mp (closed_of_scanFrom whole)
  · rintro ⟨value, closed⟩
    have found : read true '\x60' (('$' :: '\x7b' :: (code.toList ++ ending)) ++ []) =
        ⟨.template (String.ofList value.raw) true,
          ('$' :: '\x7b' :: (code.toList ++ ending)).length⟩ := by
      rw [append_nil, read_template, readTemplate, closed]
      rfl
    have tokens := scanFrom_of_read found 0
    rw [append_nil, ← toList_templated, String.ofList_toList, scanFrom] at tokens
    exact ⟨_, tokens⟩

theorem closed_templated (ends : ∀ t ∈ scan code, t.kind.isFault = false)
    (balanced : Balanced ((significant (scan code)).map Token.kind))
    (quiet : ∀ t ∈ scan code, t.misleads = false) :
    Closed (.code 1) [.text] (code.toList ++ ending) :=
  Closed.tokens true 0 code.toList [] ends quiet (balanced_iff_openAfter.mp balanced)
    ⟨⟨[], false⟩, rfl⟩

theorem isTemplate_templated (ends : ∀ t ∈ scan code, t.kind.isFault = false)
    (balanced : Balanced ((significant (scan code)).map Token.kind))
    (quiet : ∀ t ∈ scan code, t.misleads = false) : IsTemplate (scan (templated code)) := by
  obtain ⟨raw, whole⟩ := exists_scan_templated_iff.mpr (closed_templated ends balanced quiet)
  exact ⟨_, raw, true, whole, rfl⟩

/-- **Substitutions and tokens.** Take a code that can be read and whose brackets are balanced. The
template whose only substitution it is reads as one template that spans the whole text exactly if
the reader of the template, which knows no comments and no regular expressions, is back in the
substitution behind the code or has left it for the text of the template. It is back if no comment
and no regular expression of the code has a quote, a backquote or a brace inside. -/
theorem templated_spans_iff {code : String} (ends : ∀ t ∈ scan code, t.kind.isFault = false)
    (balanced : Balanced ((significant (scan code)).map Token.kind)) :
    ((∃ raw, scan (templated code) = [⟨.template raw true, templated code, 0⟩]) ↔
      ∃ places ∈ placesAfter (.code 1) [.text] code.toList,
        places = [.code 1, .text] ∨ places = [.text]) ∧
    ((∀ t ∈ scan code, t.kind = .lineComment ∨ t.kind = .blockComment ∨ t.kind = .regex →
        ∀ c ∈ t.text.toList, c ∉ ['\x22', '\x27', '\x60', '\x7b', '\x7d']) →
      ∃ raw, scan (templated code) = [⟨.template raw true, templated code, 0⟩]) := by
  rw [exists_scan_templated_iff]
  refine ⟨closed_append_ending_iff (by simp [ProperlyQuoted]), fun quiet => ?_⟩
  exact closed_templated ends balanced fun t member => misleads_eq_false (quiet t member)

/-- A quote inside a regular expression opens a string that the line end interrupts. -/
theorem templated_spans_iff_regex :
    (∀ t ∈ scan "x.replace(/'/g, y)", t.kind.isFault = false) ∧
      Balanced ((significant (scan "x.replace(/'/g, y)")).map Token.kind) ∧
      ¬ ∃ raw, scan (templated "x.replace(/'/g, y)") =
        [⟨.template raw true, templated "x.replace(/'/g, y)", 0⟩] := by
  have checked : ((scan "x.replace(/'/g, y)").all fun t => !t.kind.isFault) = true ∧
      openAfter [] ((significant (scan "x.replace(/'/g, y)")).map Token.kind) = some [] ∧
      placesAfter (.code 1) [.text] "x.replace(/'/g, y)".toList =
        some [.quoted '\x27', .code 1, .text] := by
    decide +kernel
  obtain ⟨ends, balanced, inside⟩ := checked
  have ends : ∀ t ∈ scan "x.replace(/'/g, y)", t.kind.isFault = false := by
    simpa using ends
  have balanced := balanced_iff_openAfter.mpr balanced
  refine ⟨ends, balanced, ?_⟩
  rw [(templated_spans_iff ends balanced).1, inside]
  simp

end Tarkib.Token
