import Tarkib.Compile.Declaration
import Tarkib.Proofs.Bundle.Words
import Tarkib.Proofs.Token.Renaming

/-!
# Texts and their words

Generated code is put together from texts whose words are known. `Reads` says that a text is read as
given words whatever stands around it; such texts can be put one behind the other. A text that ends
with a name is read as its words where no letter follows (`ReadsApart`).
-/

namespace Tarkib.Compile

open Token Tarkib.Bundle Tarkib.Text List

variable {us vs : List (Kind × String)} {text value s : String}

/-! ## Texts with known words -/

/-- A text that is read as the given words, whatever stands around it. -/
def Reads (text : String) (ws : List (Kind × String)) : Prop :=
  ∀ operand rest,
    wordsOf operand (text.toList ++ rest) = ws ++ wordsOf (operandAfter operand ws) rest

/-- A text that is read as the given words if no letter follows. -/
def ReadsApart (text : String) (ws : List (Kind × String)) : Prop :=
  ∀ operand rest, rest.head?.any isIdentifierPart = false →
    wordsOf operand (text.toList ++ rest) = ws ++ wordsOf (operandAfter operand ws) rest

section Reads

variable {t : String}

theorem operandAfter_append (operand : Bool) (us vs : List (Kind × String)) :
    operandAfter operand (us ++ vs) = operandAfter (operandAfter operand us) vs := by
  simp [operandAfter]

theorem Reads.apart (reads : Reads s us) : ReadsApart s us :=
  fun operand rest _ => reads operand rest

theorem Reads.words_eq (reads : Reads s us) : words (scan s) = us := by
  have alone := reads true []
  rwa [append_nil, wordsOf_nil, append_nil, ← words_scan] at alone

/-- Texts whose words are known can be put one behind the other. -/
theorem Reads.append (first : Reads s us) (second : Reads t vs) : Reads (s ++ t) (us ++ vs) := by
  intro operand rest
  rw [String.toList_append, append_assoc, first, second, operandAfter_append, append_assoc]

theorem Reads.append_apart (first : Reads s us) (second : ReadsApart t vs) :
    ReadsApart (s ++ t) (us ++ vs) := by
  intro operand rest ends
  rw [String.toList_append, append_assoc, first, second _ _ ends, operandAfter_append, append_assoc]

theorem ReadsApart.append {d : Char} (first : ReadsApart s us) (second : Reads t vs)
    (starts : t.toList.head? = some d) (stop : d ∈ stops) : Reads (s ++ t) (us ++ vs) := by
  intro operand rest
  obtain ⟨ds, letters⟩ := head?_eq_some_iff.mp starts
  have ends : (t.toList ++ rest).head?.any isIdentifierPart = false := by
    rw [letters]
    exact (stops_spec stop).1
  rw [String.toList_append, append_assoc, first _ _ ends, second, operandAfter_append, append_assoc]

/-- A name is read as itself where no letter follows. -/
theorem readsApart_name {text : String} (isName : isName text = true) :
    ReadsApart text [name text] := by
  intro operand rest ends
  obtain ⟨c, body, spelled, opens, reads⟩ := read_of_isName isName
  have found := reads operand rest ends
  have word : (read operand c (body ++ rest)).value.isSignificant = true := by rw [found]; rfl
  have letters : text.toList = c :: body := by rw [spelled, String.toList_ofList]
  rw [letters, cons_append, wordsOf_cons_of_significant word, found, take_left,
    drop_left, ← spelled]
  rfl

theorem read_eq_of_ne {c : Char} (noSlash : c ≠ '/') (operand other : Bool) (cs : List Char) :
    read operand c cs = read other c cs := by
  simp [Token.read, noSlash]

/-- The text is a string literal with the given value. -/
def IsLiteral (text value : String) : Prop :=
  scan text = [⟨.string value, text, 0⟩]

instance (text value : String) : Decidable (IsLiteral text value) :=
  inferInstanceAs (Decidable (_ = _))

theorem IsLiteral.exists_read (literal : IsLiteral text value) :
    ∃ c body, text.toList = c :: body ∧ isQuote c = true ∧
      ∀ operand rest, read operand c (body ++ rest) = ⟨.string value, body.length⟩ := by
  rw [IsLiteral, scan] at literal
  cases letters : text.toList with
  | nil => simp [letters, scanFrom] at literal
  | cons c body =>
    rw [letters, scanFrom] at literal
    have first := (List.cons.inj literal).1
    have kind : (read true c body).value = .string value := congrArg Token.kind first
    have taken : String.ofList (c :: body.take (read true c body).size) = text :=
      congrArg Token.text first
    have size : body.take (read true c body).size = body := by
      have same := congrArg String.toList taken
      rw [String.toList_ofList, letters] at same
      exact (List.cons.inj same).2
    have quote : isQuote c = true := by
      have starts := startsWith_read true c body
      rwa [kind] at starts
    have noSlash : c ≠ '/' := by
      rintro rfl
      cases quote
    refine ⟨c, body, rfl, quote, fun operand rest => ?_⟩
    have readable : (read true c body).value.isReadable = true := by rw [kind]; rfl
    have apart : (read true c body).value.runsInto (c :: body.take (read true c body).size) rest =
        false := by
      rw [kind]
      rfl
    have again := read_take_of_apart readable apart
    rw [size] at again
    have length : (read true c body).size = body.length := by
      have bound := size_read_le true c body
      have same := congrArg List.length size
      rw [length_take] at same
      omega
    rw [read_eq_of_ne noSlash operand true, again, ← kind, ← length]

/-- A literal is read as itself. -/
theorem IsLiteral.reads (literal : IsLiteral text value) : Reads text [(.string value, text)] := by
  intro operand rest
  obtain ⟨c, body, letters, _, reads⟩ := literal.exists_read
  have found := reads operand rest
  have word : (read operand c (body ++ rest)).value.isSignificant = true := by rw [found]; rfl
  rw [letters, cons_append, wordsOf_cons_of_significant word, found, take_left,
    drop_left, ← letters, String.ofList_toList]
  rfl

end Reads

/-! ## Fixed texts -/

variable {c : Char} {cs : List Char} {ws : List (Kind × String)} {operand : Bool}

theorem reads_mark (mark : c ∈ marks) : Reads (String.singleton c) [symbol (String.singleton c)] :=
  fun operand rest => by
    rw [String.toList_singleton]
    exact wordsOf_mark mark operand rest

theorem reads_blanks (blank : ∀ c ∈ text.toList, isSpace c = true) : Reads text [] :=
  fun operand rest => wordsOf_append blank operand rest

theorem reads_symbol (mark : text ∈ marks.map String.singleton) : Reads text [symbol text] := by
  obtain ⟨c, member, rfl⟩ := mem_map.mp mark
  exact reads_mark member

theorem reads_empty : Reads "" [] :=
  reads_blanks (by simp)

theorem reads_space : Reads " " [] :=
  reads_blanks (all_eq_true.mp (by decide))

theorem ReadsApart.spaced (first : ReadsApart s us) : Reads (s ++ " ") us := by
  have spaced := first.append reads_space (d := ' ') rfl (by decide)
  rwa [append_nil] at spaced

theorem Reads.spaced (first : Reads s us) : Reads (s ++ " ") us :=
  first.apart.spaced

theorem reads_comma : Reads ", " [symbol ","] := by
  have mark : Reads "," [symbol ","] := reads_symbol (by decide)
  exact mark.spaced

theorem reads_opening : Reads "\x7b " [symbol "\x7b"] := by
  have mark : Reads "\x7b" [symbol "\x7b"] := reads_symbol (by decide)
  exact mark.spaced

theorem reads_closing : Reads " \x7d" [symbol "\x7d"] := by
  have mark : Reads "\x7d" [symbol "\x7d"] := reads_symbol (by decide)
  exact reads_space.append mark

theorem readsApart_intercalate {α : Type} {text : α → String} {ws : α → List (Kind × String)}
    {parts : List α} (each : ∀ part ∈ parts, ReadsApart (text part) (ws part)) :
    ReadsApart (String.intercalate ", " (parts.map text))
      ([symbol ","].intercalate (parts.map ws)) := by
  induction parts with
  | nil => exact reads_empty.apart
  | cons part parts ih =>
    obtain ⟨here, later⟩ := forall_mem_cons.mp each
    cases parts with
    | nil => simpa using here
    | cons next parts =>
      have pair := here.append reads_comma (d := ',') rfl (by decide)
      have whole := pair.append_apart (ih later)
      simpa [String.intercalate_cons_cons, intercalate_cons_cons] using whole

theorem wordsOf_eq_of_notMem (free : '/' ∉ cs) (operand other : Bool) :
    wordsOf operand cs = wordsOf other cs := by
  induction size : cs.length using Nat.strong_induction_on generalizing cs with
  | _ n ih =>
  subst size
  cases cs with
  | nil => simp
  | cons c cs =>
    have noSlash : c ≠ '/' := fun same => free (same ▸ mem_cons_self)
    have same := read_eq_of_ne noSlash operand other cs
    cases word : (read other c cs).value.isSignificant with
    | true =>
      rw [wordsOf_cons_of_significant (by rwa [same]), wordsOf_cons_of_significant word, same]
    | false =>
      rw [wordsOf_cons_of_trivia (by rwa [same]), wordsOf_cons_of_trivia word, same]
      refine ih _ ?_ (fun member => free ?_) rfl
      · simp only [length_drop, length_cons]
        omega
      · exact mem_cons_of_mem _ ((drop_sublist _ cs).subset member)

/-- A fixed text without slashes that ends with a blank or a mark is read as its words. -/
theorem reads_append_stop {stop : Char} (stops : stop ∈ stops) (free : '/' ∉ text.toList)
    (found : wordsOf true text.toList = ws) (readable : ∀ w ∈ ws, w.1.isReadable = true)
    (last : Reads (String.singleton stop) vs) :
    Reads (text ++ String.singleton stop) (ws ++ vs) := by
  intro operand rest
  have same := (wordsOf_eq_of_notMem free operand true).trans found
  have behind := last (operandAfter operand ws) rest
  rw [String.toList_singleton, singleton_append] at behind
  rw [String.toList_append, String.toList_singleton, append_assoc, singleton_append,
    wordsOf_append_stop stops operand _ rest (same ▸ readable) (.inr free), same, behind,
    operandAfter_append, append_assoc]

def interopWords : List (Kind × String) := [
  symbol "(", name "function", symbol "(", name "m", symbol ")", symbol "\x7b", name "return",
  name "m", symbol "&&", name "m", symbol ".", name "__esModule", symbol "?", name "m", symbol ".",
  name "default", symbol ":", name "m", symbol ";", symbol "\x7d"]

def fixedTexts : List (String × List (Kind × String)) := [
  ("=", [symbol "="]), (":", [symbol ":"]), ("*", [symbol "*"]),
  ("(function (m) \x7b return m && m.__esModule ? m.default : m; \x7d", interopWords)]

theorem reads_fixed (stop : Char) (fixed : (text, ws) ∈ fixedTexts) (stops : stop ∈ stops)
    (last : Reads (String.singleton stop) vs) :
    Reads (text ++ String.singleton stop) (ws ++ vs) := by
  have checked : fixedTexts.all (fun entry => !entry.1.toList.contains '/' &&
      wordsOf true entry.1.toList == entry.2 && entry.2.all (·.1.isReadable)) = true := by
    decide +kernel
  have here := all_eq_true.mp checked _ fixed
  simp only [Bool.and_eq_true, Bool.not_eq_true', contains_eq_mem, decide_eq_false_iff_not,
    beq_iff_eq, all_eq_true] at here
  exact reads_append_stop stops here.1.1 here.1.2 here.2 last

theorem reads_fixed_space (fixed : (text, ws) ∈ fixedTexts) : Reads (text ++ " ") ws := by
  have spaced := reads_fixed ' ' fixed (by decide) reads_space
  rwa [append_nil] at spaced

/-! ## Trivia -/

/-- Text without words of its own where it stands, before `behind`, and before any other text that
is like it up to a name. -/
def Skips (lead behind : List Char) : Prop :=
  ∀ operand rest, Alike opensName behind rest →
    wordsOf operand (lead ++ rest) = wordsOf operand rest

theorem skips_nil (behind : List Char) : Skips [] behind :=
  fun _ _ _ => rfl

theorem read_trivia {other : Bool} (trivia : (read operand c cs).value.isSignificant = false) :
    read other c cs = read operand c cs := by
  cases opening operand c cs with
  | blank space => simp [Token.read, space]
  | comment slash opens =>
    subst slash
    have second : cs.head? = some '/' ∨ cs.head? = some '*' := by
      cases cs <;> simp_all
    rcases second with line | block
    · simp [Token.read, line]
    · simp [Token.read, block]
  | regex slash operand noComment =>
    subst slash operand
    rw [isSignificant_read (by decide) fun _ => ?_] at trivia
    · cases trivia
    · cases cs <;> simp_all
  | string quote => exact read_eq_of_ne (by rintro rfl; cases quote) _ _ _
  | template mark => exact read_eq_of_ne (by rintro rfl; cases mark) _ _ _
  | number _ digit => exact read_eq_of_ne (by rintro rfl; cases digit) _ _ _
  | identifier _ _ start =>
    exact read_eq_of_ne (ne_of_isIdentifierStart start (by decide) (by decide)) _ _ _
  | punct opens punct slash point =>
    rw [read_punct opens punct slash point, (readPunct_spec c cs).value] at trivia
    cases trivia
  | stray opens noPunct => exact read_eq_of_ne (by rintro rfl; cases noPunct) _ _ _

theorem Skips.append {lead : List Char} (skips : Skips lead (c :: cs))
    (trivia : (read operand c cs).value.isSignificant = false) :
    Skips (lead ++ c :: cs.take (read operand c cs).size) (cs.drop (read operand c cs).size) := by
  intro other rest alike
  have split : cs.take (read operand c cs).size ++ cs.drop (read operand c cs).size = cs :=
    take_append_drop _ _
  have body : (cs.take (read operand c cs).size).length = (read operand c cs).size :=
    length_take_of_le (size_read_le operand c cs)
  have whole : Alike opensName (c :: cs) (c :: cs.take (read operand c cs).size ++ rest) := by
    have front := alike.append_left (c :: cs.take (read operand c cs).size)
    rwa [cons_append, split] at front
  have same : read other c (cs.take (read operand c cs).size ++ rest) = read operand c cs := by
    have size : (read other c (cs.take (read operand c cs).size ++
        cs.drop (read operand c cs).size)).size = (cs.take (read operand c cs).size).length := by
      rw [split, read_trivia trivia, body]
    rw [read_append_of_alike uniform_opensName size alike, split, read_trivia trivia]
    rw [split, read_trivia trivia]
    intro number
    rw [number] at trivia
    cases trivia
  rw [append_assoc, skips other _ whole, cons_append,
    wordsOf_cons_of_trivia (by rwa [same]), same, drop_left' body]

/-- What stands in front of a word of a source has no words, and can be put in front of another text
of the same kind. -/
theorem skips_splitFrom (lead : String) (operand : Bool) (start : Nat) (cs : List Char)
    (skips : Skips lead.toList cs) :
    (∀ l ∈ (Lexeme.splitFrom lead (scanFrom operand start cs)).1,
        ∃ behind, Skips l.lead.toList (l.token.text.toList ++ behind)) ∧
      Skips (Lexeme.splitFrom lead (scanFrom operand start cs)).2.toList [] := by
  fun_induction scanFrom operand start cs generalizing lead with
  | case1 => simpa [Lexeme.splitFrom] using skips
  | case2 operand start c cs reading token operand' ih =>
    have split : token.text.toList ++ cs.drop reading.size = c :: cs := by simp [token]
    cases word : token.isSignificant with
    | true =>
      have later := ih "" (skips_nil _)
      rw [Lexeme.splitFrom, if_pos word]
      exact ⟨forall_mem_cons.mpr ⟨⟨cs.drop reading.size, split ▸ skips⟩, later.1⟩, later.2⟩
    | false =>
      rw [Lexeme.splitFrom, if_neg (by simp [word])]
      have trivia : reading.value.isSignificant = false := word
      have text : token.text.toList = c :: cs.take reading.size := by simp [token]
      refine ih (lead ++ token.text) ?_
      rw [String.toList_append, text]
      exact skips.append trivia

end Tarkib.Compile
