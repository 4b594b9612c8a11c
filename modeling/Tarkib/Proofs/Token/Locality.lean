import Tarkib.Proofs.Token.Cover
import Tarkib.Proofs.Token.Quoted

/-!
# What a token depends on

A token is read with a look at the text behind it, but never at more of it than the characters up to
the next literal or name. Two texts that agree up to a place where characters of one class stand in
both of them are alike (`Alike`), and readers may not tell the characters of the class apart
(`Uniform`). This holds of every token, closed or not.
-/

namespace Tarkib.Token

open Tarkib.Text List

variable {cs : List Char} {kind : Kind} {c : Char} {operand : Bool} {spell : Token → String}
  {opens p : Char → Bool} {start : Nat}

/-! ## Texts that are alike -/

/-- Two texts agree up to a place where characters of the given class stand in both of them. -/
inductive Alike (opens : Char → Bool) : List Char → List Char → Prop where
  | nil : Alike opens [] []
  | cons (c : Char) {cs ds : List Char} (rest : Alike opens cs ds) :
      Alike opens (c :: cs) (c :: ds)
  | opens {q r : Char} (first : opens q = true) (second : opens r = true)
      (cs ds : List Char) : Alike opens (q :: cs) (r :: ds)

def IsLevel (opens p : Char → Bool) : Prop :=
  ∀ q r, opens q = true → opens r = true → p q = p r

theorem isLevel_of_forall {b : Bool} (all : ∀ c, opens c = true → p c = b) : IsLevel opens p := by
  intro q r first second
  rw [all q first, all r second]

namespace Alike

variable {ds : List Char} (alike : Alike opens cs ds)

include alike

theorem append_left (front : List Char) : Alike opens (front ++ cs) (front ++ ds) := by
  induction front with
  | nil => exact alike
  | cons c front ih => exact .cons c ih

theorem eq_nil (none : cs = []) : ds = [] := by
  cases alike with
  | nil => rfl
  | cons => cases none
  | opens => cases none

theorem any_head? {p : Char → Bool} (level : IsLevel opens p) :
    cs.head?.any p = ds.head?.any p := by
  cases alike with
  | nil => rfl
  | cons c rest => rfl
  | opens first second => exact level _ _ first second

theorem isPrefixOf_eq {text : List Char} (plain : ∀ c ∈ text, opens c = false) :
    text.isPrefixOf cs = text.isPrefixOf ds := by
  induction alike generalizing text with
  | nil => rfl
  | cons c rest ih =>
    cases text with
    | nil => rfl
    | cons d text =>
      have later := ih fun e member => plain e (mem_cons_of_mem _ member)
      simp only [List.isPrefixOf, later]
  | opens first second =>
    cases text with
    | nil => rfl
    | cons d text =>
      have here := plain d mem_cons_self
      have apart : ∀ q, opens q = true → (d == q) = false := by
        intro q opening
        rw [beq_eq_false_iff_ne]
        rintro rfl
        rw [opening] at here
        cases here
      simp only [List.isPrefixOf, apart _ first, apart _ second, Bool.false_and]

end Alike

/-- The characters of the class look the same to all readers, but perhaps to those of numbers, and
are no part of an operator. -/
structure Uniform (opens : Char → Bool) : Prop where
  space : IsLevel opens isSpace
  line : IsLevel opens isLineBody
  letter : IsLevel opens isIdentifierPart
  digit : IsLevel opens Char.isDigit
  comment : IsLevel opens fun c => c == '/' || c == '*'
  operator : ∀ op ∈ operators, ∀ c ∈ op.toList, opens c = false

/-- What a number sees of the text behind it. -/
def NumberSees (rest rest' : List Char) : Prop :=
  ∀ marked, rest.head?.any (goesOnWith marked) = rest'.head?.any (goesOnWith marked)

theorem Alike.runsInto_eq {opens : Char → Bool} (uniform : Uniform opens) {cs ds : List Char}
    (alike : Alike opens cs ds) (numbers : kind = .number → NumberSees cs ds) (text : List Char) :
    kind.runsInto text cs = kind.runsInto text ds := by
  have letters := alike.any_head? uniform.letter
  have digits := alike.any_head? uniform.digit
  have comments := alike.any_head? uniform.comment
  have longer : (operators.any fun op =>
        text.length < op.length && op.toList.isPrefixOf (text ++ cs)) =
      operators.any fun op =>
        text.length < op.length && op.toList.isPrefixOf (text ++ ds) := by
    rw [Bool.eq_iff_iff, any_eq_true, any_eq_true]
    refine exists_congr fun op => and_congr_right fun member => ?_
    rw [(alike.append_left text).isPrefixOf_eq (uniform.operator op member)]
  cases kind with
  | identifier | regex => exact letters
  | number => exact numbers rfl _
  | punct => simp only [Kind.runsInto, longer, digits, comments]
  | _ => rfl

/-! ### Quotes -/

def isQuote (c : Char) : Bool :=
  c == '\x22' || c == '\x27' || c == '\x60'

theorem isQuote_iff : isQuote c = true ↔ c = '\x22' ∨ c = '\x27' ∨ c = '\x60' := by
  simp [isQuote, or_assoc]

theorem level_of_quotes {p : Char → Bool} {b : Bool} (double : p '\x22' = b) (single : p '\x27' = b)
    (back : p '\x60' = b) : IsLevel isQuote p := by
  apply isLevel_of_forall (b := b)
  intro q quote
  rcases isQuote_iff.mp quote with rfl | rfl | rfl
  · exact double
  · exact single
  · exact back

theorem isQuote_of_mem_operators : ∀ op ∈ operators, ∀ c ∈ op.toList, isQuote c = false := by
  have checked : operators.all (fun op => op.toList.all fun c => !isQuote c) = true := by
    decide
  intro op member c inside
  have plain := all_eq_true.mp (all_eq_true.mp checked op member) c inside
  simpa using plain

/-- The characters that open a string or a template are such a class. -/
theorem uniform_isQuote : Uniform isQuote where
  space := by apply level_of_quotes (b := false) <;> decide
  line := by apply level_of_quotes (b := true) <;> decide
  letter := by apply level_of_quotes (b := false) <;> decide +kernel
  digit := by apply level_of_quotes (b := false) <;> decide
  comment := by apply level_of_quotes (b := false) <;> decide
  operator := isQuote_of_mem_operators

theorem Alike.numberSees {cs ds : List Char} (alike : Alike isQuote cs ds) : NumberSees cs ds := by
  intro marked
  apply alike.any_head?
  cases marked <;> apply level_of_quotes (b := false) <;> decide

/-! ### Names -/

/-- Characters with which a name starts. -/
def opensName (c : Char) : Bool :=
  isIdentifierStart c && !isSpace c && !c.isDigit

theorem opensName_iff : opensName c = true ↔
    isIdentifierStart c = true ∧ isSpace c = false ∧ c.isDigit = false := by
  simp [opensName, and_assoc]

theorem isIdentifierStart_of_ascii (ascii : c.toNat < 128) :
    isIdentifierStart c = (c == '$' || c == '_' || c.isAlpha) := by
  have beyond : 128 ≤ letterRuns.headD 0 := by decide
  have none : inRuns letterRuns c = false := inRuns_of_lt (ascii.trans_le beyond)
  rw [isIdentifierStart, none, Bool.or_false]

theorem ne_of_isIdentifierStart {c d : Char} (start : isIdentifierStart c = true)
    (ascii : d.toNat < 128) (other : (d == '$' || d == '_' || d.isAlpha) = false) : c ≠ d := by
  rintro rfl
  rw [isIdentifierStart_of_ascii ascii, other] at start
  cases start

theorem isIdentifierStart_of_mem_operators :
    ∀ op ∈ operators, ∀ c ∈ op.toList, isIdentifierStart c = false := by
  have checked : operators.all (fun op => op.toList.all fun c =>
      c.toNat < 128 && !(c == '$' || c == '_' || c.isAlpha)) = true := by decide
  intro op member c inside
  have plain := all_eq_true.mp (all_eq_true.mp checked op member) c inside
  rw [Bool.and_eq_true, decide_eq_true_iff, Bool.not_eq_true'] at plain
  rw [isIdentifierStart_of_ascii plain.1, plain.2]

/-- So are those that open a name, but for numbers, which go on with some letters and not with
others. -/
theorem uniform_opensName : Uniform opensName where
  space := isLevel_of_forall fun _ opens => (opensName_iff.mp opens).2.1
  line := by
    apply isLevel_of_forall (b := true)
    intro c opens
    have start := (opensName_iff.mp opens).1
    rw [isLineBody, Bool.and_eq_true, bne_iff_ne, bne_iff_ne]
    exact ⟨ne_of_isIdentifierStart start (by decide) (by decide),
      ne_of_isIdentifierStart start (by decide) (by decide)⟩
  letter := by
    apply isLevel_of_forall (b := true)
    intro c opens
    simp [isIdentifierPart, (opensName_iff.mp opens).1]
  digit := isLevel_of_forall fun _ opens => (opensName_iff.mp opens).2.2
  comment := by
    apply isLevel_of_forall (b := false)
    intro c opens
    have start := (opensName_iff.mp opens).1
    rw [Bool.or_eq_false_iff, beq_eq_false_iff_ne, beq_eq_false_iff_ne]
    exact ⟨ne_of_isIdentifierStart start (by decide) (by decide),
      ne_of_isIdentifierStart start (by decide) (by decide)⟩
  operator := by
    intro op member c inside
    simp [opensName, isIdentifierStart_of_mem_operators op member c inside]

theorem length_takeWhile_of_alike {body rest rest' : List Char} (level : IsLevel opens p)
    (size : ((body ++ rest).takeWhile p).length = body.length) (alike : Alike opens rest rest') :
    ((body ++ rest').takeWhile p).length = body.length := by
  have run : (body ++ rest).takeWhile p = body := by
    rw [← take_length_takeWhile, size, take_left]
  have all : ∀ c ∈ body, p c = true := by
    intro c member
    rw [← run] at member
    exact mem_takeWhile_imp member
  have stops : rest.head?.any p = false := by
    rw [any_head?_eq_false_iff]
    rw [takeWhile_append_of_pos all, append_right_eq_self] at run
    rw [run, length_nil]
  rw [alike.any_head? level, any_head?_eq_false_iff] at stops
  rw [takeWhile_append_of_pos all, length_append, stops, Nat.add_zero]

/-! ## The first character of a token -/

/-- What is known of the first character of literals and names. -/
def Kind.StartsWith (kind : Kind) (c : Char) : Prop :=
  match kind with
  | .string _ | .template _ _ => isQuote c = true
  | .identifier _ => opensName c = true
  | _ => True

theorem Kind.startsWith_of_unreadable (unreadable : kind.isReadable = false) (c : Char) :
    kind.StartsWith c := by
  cases kind with
  | string | template | identifier => cases unreadable
  | _ => trivial

theorem startsWith_read (operand : Bool) (c : Char) (cs : List Char) :
    (read operand c cs).value.StartsWith c := by
  cases opening operand c cs with
  | blank space => simp [read, space, Kind.StartsWith]
  | comment slash opens =>
    subst slash
    exact Kind.startsWith_of_unreadable (isReadable_read_comment opens) _
  | regex slash operand apart =>
    subst slash operand
    rw [read_regex apart.1 apart.2]
    cases closed : (readRegex false cs).value <;> simp [closed, Kind.StartsWith]
  | string quote =>
    rw [Bool.or_eq_true, beq_iff_eq, beq_iff_eq] at quote
    have isQuote : isQuote c = true := isQuote_iff.mpr (quote.imp_right Or.inl)
    rw [read_string (by simpa using quote)]
    cases closed : (readString c cs).value <;>
      simp [closed, Kind.ofString, Kind.StartsWith, isQuote]
  | template mark =>
    subst mark
    rw [read_template]
    cases closed : (readTemplate .text [] cs).value <;>
      simp [closed, Kind.ofTemplate, Kind.StartsWith, isQuote]
  | number noSpace digit =>
    rw [read_number noSpace digit]
    trivial
  | identifier noSpace noDigit start =>
    rw [read_identifier noSpace noDigit start]
    exact opensName_iff.mpr ⟨start, noSpace, noDigit⟩
  | punct opens punct slash point =>
    rw [read_punct opens punct slash point, (readPunct_spec c cs).value]
    trivial
  | stray opens noPunct =>
    rw [read_stray opens noPunct]
    trivial

/-! ## One token before texts that are alike -/

section Alike

variable (uniform : Uniform opens) {body rest rest' : List Char}

include uniform

theorem read_of_isReadable (readable : (read operand c (body ++ rest)).value.isReadable = true)
    (size : (read operand c (body ++ rest)).size = body.length) (alike : Alike opens rest rest')
    (numbers : (read operand c (body ++ rest)).value = .number → NumberSees rest rest') :
    read operand c (body ++ rest') = read operand c (body ++ rest) := by
  have taken : (body ++ rest).take (read operand c (body ++ rest)).size = body := by
    rw [size, take_left]
  have apart : (read operand c (body ++ rest)).value.runsInto
      (c :: (body ++ rest).take (read operand c (body ++ rest)).size) rest = false := by
    rw [← Bool.not_eq_true]
    intro runs
    have more := size_read_take_of_runsInto readable runs
    rw [taken] at more
    exact Nat.lt_irrefl _ more
  rw [alike.runsInto_eq uniform numbers] at apart
  have again := read_take_of_apart readable apart
  rwa [taken] at again

theorem read_of_comment
    (comment : ((body ++ rest).head?.any fun c => c == '/' || c == '*') = true)
    (size : (read operand '/' (body ++ rest)).size = body.length) (more : rest ≠ [])
    (alike : Alike opens rest rest') :
    read operand '/' (body ++ rest') = read operand '/' (body ++ rest) := by
  have positive : (read operand '/' (body ++ rest)).size ≠ 0 :=
    size_read_comment_ne_zero comment
  rw [size, ne_eq, length_eq_zero_iff] at positive
  obtain ⟨d, body, rfl⟩ := exists_cons_of_ne_nil positive
  have second : d = '/' ∨ d = '*' := by simpa using comment
  rcases second with rfl | rfl
  · rw [cons_append, read_lineComment] at size
    rw [cons_append, cons_append, read_lineComment, read_lineComment, ← cons_append, ← cons_append,
      length_takeWhile_of_alike uniform.line size alike, ← size]
    rfl
  · rw [cons_append, read_blockComment] at size
    have inner : (readComment false (body ++ rest)).size = body.length := by simpa using size
    have stops : (readComment false (body ++ rest)).size < (body ++ rest).length := by
      have := length_pos_iff.mpr more
      rw [inner, length_append]
      omega
    have again := readComment_take (.inr stops) rest'
    rw [inner, take_left] at again
    rw [cons_append, cons_append, read_blockComment, read_blockComment, again]

/-- A token is read before alike texts in the same way. -/
theorem read_append_of_alike (size : (read operand c (body ++ rest)).size = body.length)
    (alike : Alike opens rest rest')
    (numbers : (read operand c (body ++ rest)).value = .number → NumberSees rest rest') :
    read operand c (body ++ rest') = read operand c (body ++ rest) := by
  by_cases more : rest = []
  · rw [more, alike.eq_nil more]
  have stops : body.length < (body ++ rest).length := by
    have := length_pos_iff.mpr more
    rw [length_append]
    omega
  cases opening operand c (body ++ rest) with
  | blank space =>
    have blank (cs : List Char) :
        read operand c cs = ⟨.blank, (cs.takeWhile isSpace).length⟩ := by
      simp [read, space]
    rw [blank] at size
    rw [blank, blank, length_takeWhile_of_alike uniform.space size alike, ← size]
  | comment slash opens =>
    subst slash
    exact read_of_comment uniform opens size more alike
  | regex slash operand apart =>
    subst slash operand
    cases closed : (readRegex false (body ++ rest)).value with
    | true =>
      refine read_of_isReadable uniform ?_ size alike numbers
      rw [read_regex apart.1 apart.2, Reading.value_map, closed]
      rfl
    | false =>
      rw [read_regex apart.1 apart.2, Reading.size_map] at size
      have again := readRegex_take (.inr (size ▸ stops)) rest'
      have head := head?_take_append (size_readRegex_ne_zero (by simp [more]) false)
        (size_readRegex_le false (body ++ rest)) rest'
      rw [size, take_left] at again head
      rw [read_regex apart.1 apart.2, read_regex (head ▸ apart.1) (head ▸ apart.2), again, closed]
      rfl
  | string quote =>
    rw [read_string quote, Reading.size_map] at size
    have again := readString_take (.inr (size ▸ stops)) rest'
    rw [size, take_left] at again
    rw [read_string quote, read_string quote, again]
  | template mark =>
    subst mark
    rw [read_template, Reading.size_map] at size
    have again := readTemplate_take (.inr (size ▸ stops)) rest'
    rw [size, take_left] at again
    rw [read_template, read_template, again]
  | number noSpace digit =>
    refine read_of_isReadable uniform ?_ size alike numbers
    rw [read_number noSpace digit]
    rfl
  | identifier noSpace noDigit start =>
    refine read_of_isReadable uniform ?_ size alike numbers
    rw [read_identifier noSpace noDigit start]
    rfl
  | punct opens punct slash point =>
    refine read_of_isReadable uniform ?_ size alike numbers
    rw [read_punct opens punct slash point, (readPunct_spec c (body ++ rest)).value]
    rfl
  | stray opens noPunct =>
    refine read_of_isReadable uniform ?_ size alike numbers
    rw [read_stray opens noPunct]
    rfl

end Alike

/-! ## Replaced literals -/

/-- Whether the kind is that of a string or of a template without substitutions. -/
def Kind.isLiteral : Kind → Bool
  | .string _ | .template _ false => true
  | _ => false

theorem Kind.isReadable_of_isLiteral (literal : kind.isLiteral = true) :
    kind.isReadable = true := by
  cases kind with
  | string | template => rfl
  | _ => cases literal

theorem Kind.precedesExpression_of_isLiteral (literal : kind.isLiteral = true) :
    kind.precedesExpression = false := by
  cases kind with
  | string | template => rfl
  | _ => cases literal

theorem isQuote_of_isLiteral (literal : (read operand c cs).value.isLiteral = true) :
    isQuote c = true := by
  have starts := startsWith_read operand c cs
  cases kind : (read operand c cs).value with
  | string | template =>
    rw [kind] at starts
    exact starts
  | _ =>
    rw [kind] at literal
    cases literal

/-- A text that can take the place of that of a token: its own, or if the token is a literal, any
quoted text. -/
def CanSpell (t : Token) (text : String) : Prop :=
  text = t.text ∨ t.kind.isLiteral = true ∧ ∃ s, text = Json.quote s

/-- What becomes of a token whose text is replaced. -/
structure Respelled (spell : Token → String) (t t' : Token) : Prop where
  text : t'.text = spell t
  kind : t'.kind = t.kind ∧ t'.text = t.text ∨ t.kind.isLiteral = true ∧ ∃ s, t'.kind = .string s

def respelling (spell : Token → String) (tokens : List Token) : List Char :=
  tokens.flatMap fun t => (spell t).toList

theorem respelling_cons (spell : Token → String) (t : Token) (ts : List Token) :
    respelling spell (t :: ts) = (spell t).toList ++ respelling spell ts :=
  flatMap_cons

/-- Texts whose literals are replaced are alike. -/
theorem alike_respelling (fits : ∀ t ∈ scanFrom operand start cs, t.CanSpell (spell t)) :
    Alike isQuote cs (respelling spell (scanFrom operand start cs)) := by
  fun_induction scanFrom operand start cs with
  | case1 => exact .nil
  | case2 operand start c cs reading token operand' ih =>
    have later := ih fun t member => fits t (mem_cons_of_mem _ member)
    rw [respelling_cons]
    rcases fits token mem_cons_self with same | ⟨literal, s, quoted⟩
    · have split : c :: cs = token.text.toList ++ cs.drop reading.size := by simp [token]
      rw [same, split]
      exact later.append_left _
    · obtain ⟨body, text, _⟩ := read_quote s
      rw [quoted, text]
      exact .opens (isQuote_of_isLiteral literal) rfl _ _

theorem exists_read_of_canSpell {cs rest : List Char} {text : String}
    (fits : CanSpell ⟨(read operand c cs).value,
      String.ofList (c :: cs.take (read operand c cs).size), start⟩ text)
    (alike : Alike isQuote (cs.drop (read operand c cs).size) rest) :
    ∃ d body kind, text = String.ofList (d :: body) ∧
      read operand d (body ++ rest) = ⟨kind, body.length⟩ ∧
      (kind = (read operand c cs).value ∧
          text = String.ofList (c :: cs.take (read operand c cs).size) ∨
        (read operand c cs).value.isLiteral = true ∧ ∃ s, kind = .string s) := by
  rcases fits with same | ⟨literal, s, quoted⟩
  · have size : (cs.take (read operand c cs).size).length = (read operand c cs).size :=
      length_take_of_le (size_read_le operand c cs)
    have split := take_append_drop (read operand c cs).size cs
    have again : read operand c (cs.take (read operand c cs).size ++ rest) =
        read operand c (cs.take (read operand c cs).size ++ cs.drop (read operand c cs).size) :=
      read_append_of_alike uniform_isQuote (by rw [split, size]) alike fun _ => alike.numberSees
    rw [split] at again
    refine ⟨c, _, (read operand c cs).value, same, ?_, .inl ⟨rfl, same⟩⟩
    rw [again, size]
  · obtain ⟨body, spelled, readAs⟩ := read_quote s
    refine ⟨'\x22', body, _, ?_, readAs operand rest, .inr ⟨literal, requoted s, rfl⟩⟩
    rw [quoted, ← spelled, String.ofList_toList]

theorem scanFrom_of_read {body rest : List Char}
    (found : read operand c (body ++ rest) = ⟨kind, body.length⟩) (start : Nat) :
    scanFrom operand start (c :: body ++ rest) =
      ⟨kind, String.ofList (c :: body), start⟩ ::
        scanFrom (if kind.isSignificant then kind.precedesExpression else operand)
          (start + (String.ofList (c :: body)).utf8ByteSize) rest := by
  rw [cons_append, scanFrom]
  simp only [found, take_left, drop_left]
  rfl

/-- Literals can be replaced by quoted texts, and all other tokens stay what they are. -/
theorem exists_respelling (operand : Bool) (start start' : Nat) (cs : List Char)
    (fits : ∀ t ∈ scanFrom operand start cs, t.CanSpell (spell t)) :
    ∃ pairs : List (Token × Token), pairs.map Prod.fst = scanFrom operand start cs ∧
      pairs.map Prod.snd =
        scanFrom operand start' (respelling spell (scanFrom operand start cs)) ∧
      ∀ pair ∈ pairs, Respelled spell pair.1 pair.2 := by
  fun_induction scanFrom operand start cs generalizing start' with
  | case1 => exact ⟨[], rfl, by simp [respelling, scanFrom], by simp⟩
  | case2 operand start c cs reading token operand' ih =>
    have others : ∀ t ∈ scanFrom operand' token.stop (cs.drop reading.size),
        t.CanSpell (spell t) := fun t member => fits t (mem_cons_of_mem _ member)
    obtain ⟨d, body, kind, text, found, meaning⟩ :=
      exists_read_of_canSpell (fits token mem_cons_self) (alike_respelling others)
    -- The slash means the same behind the old token and behind the new one.
    have operand_eq : (if kind.isSignificant then kind.precedesExpression else operand) =
        operand' := by
      rcases meaning with ⟨rfl, _⟩ | ⟨literal, s, rfl⟩
      · rfl
      · have word : reading.value.isSignificant = true :=
          Kind.isSignificant_of_isReadable (Kind.isReadable_of_isLiteral literal)
        have divides : reading.value.precedesExpression = false :=
          Kind.precedesExpression_of_isLiteral literal
        simp only [operand', isSignificant, token, word, divides]
        rfl
    obtain ⟨pairs, old, new, respelled⟩ :=
      ih (start' + (String.ofList (d :: body)).utf8ByteSize) others
    refine ⟨(token, ⟨kind, String.ofList (d :: body), start'⟩) :: pairs, ?_, ?_, ?_⟩
    · rw [map_cons, old]
    · rw [map_cons, new, respelling_cons, text, String.toList_ofList,
        scanFrom_of_read found, operand_eq]
    · intro pair member
      rcases mem_cons.mp member with rfl | member
      · refine ⟨text.symm, ?_⟩
        rcases meaning with ⟨same, kept⟩ | replaced
        · left
          refine ⟨same, ?_⟩
          rw [← text, kept]
        · exact .inr replaced
      · exact respelled pair member

end Tarkib.Token
