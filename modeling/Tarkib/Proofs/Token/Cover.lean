import Tarkib.Proofs.Token.Scan

/-!
# Tokens cover their source

The tokens of a source are cut out of it without a gap and without an overlap. A reader may give up
in the middle of a literal. All that it went over belongs to the token then.
-/

namespace Tarkib.Token

open Tarkib.Text List

/-! ## Texts put together -/

theorem concat_cons (t : Token) (ts : List Token) : concat (t :: ts) = t.text ++ concat ts := by
  simp only [concat, map_cons, String.join_cons]

theorem concat_append (before after : List Token) :
    concat (before ++ after) = concat before ++ concat after := by
  induction before with
  | nil => simp [concat]
  | cons t ts ih => rw [cons_append, concat_cons, concat_cons, ih, String.append_assoc]

variable {start : Nat} {before after tokens : List Token} {t : Token}

/-- A token stands where the texts of the tokens before it end. -/
theorem Placed.start_of_split (placed : Placed start (before ++ t :: after)) :
    t.start = start + (concat before).utf8ByteSize := by
  induction before generalizing start with
  | nil => simpa [concat] using placed.1
  | cons u us ih =>
    obtain ⟨here, _, rest⟩ := placed
    rw [ih rest, concat_cons, String.utf8ByteSize_append, stop, here]
    omega

theorem Placed.stop_of_split (placed : Placed start (before ++ t :: after)) :
    t.stop = start + (concat before ++ t.text).utf8ByteSize := by
  rw [stop, placed.start_of_split, String.utf8ByteSize_append]
  omega

theorem Placed.nonempty (placed : Placed start tokens) : ∀ t ∈ tokens, t.start < t.stop := by
  induction tokens generalizing start with
  | nil => simp
  | cons u us ih =>
    obtain ⟨_, some, rest⟩ := placed
    intro t member
    rcases mem_cons.mp member with rfl | member
    · exact start_lt_stop some
    · exact ih rest t member

/-! ## The span of a token -/

/-- The span of the token is not empty, starts and ends between characters of the source, and the
bytes in it spell the text of the token. -/
structure Spans (source : String) (t : Token) : Prop where
  nonempty : t.start < t.stop
  opens : String.Pos.Raw.IsValid source ⟨t.start⟩
  closes : String.Pos.Raw.IsValid source ⟨t.stop⟩
  bytes : source.toByteArray.extract t.start t.stop = t.text.toByteArray

theorem isValid_utf8ByteSize (front behind : String) :
    String.Pos.Raw.IsValid (front ++ behind) ⟨front.utf8ByteSize⟩ :=
  String.Pos.Raw.isValid_iff_exists_append.mpr ⟨front, behind, rfl, rfl⟩

theorem extract_append_append (front text behind : String) :
    (front ++ (text ++ behind)).toByteArray.extract front.utf8ByteSize
      (front ++ text).utf8ByteSize = text.toByteArray := by
  have inner : (text.toByteArray ++ behind.toByteArray).extract 0 text.toByteArray.size =
      text.toByteArray := ByteArray.extract_append_eq_left rfl
  have outer := ByteArray.extract_append_size_add (a := front.toByteArray)
    (b := text.toByteArray ++ behind.toByteArray) (i := 0) (j := text.toByteArray.size)
  rw [inner, Nat.add_zero] at outer
  rw [String.utf8ByteSize_append, String.toByteArray_append, String.toByteArray_append]
  simpa only [String.size_toByteArray] using outer

/-- A span is made of whole characters, and its bytes spell the text. -/
theorem spans_of_mem_scan (source : String) : ∀ t ∈ scan source, Spans source t := by
  intro t member
  have placed := placed_scan source
  have nonempty := placed.nonempty t member
  obtain ⟨before, after, split⟩ := append_of_mem member
  have whole : source = concat before ++ (t.text ++ concat after) := by
    rw [← concat_cons, ← concat_append, ← split, concat_scan]
  rw [split] at placed
  have start := placed.start_of_split
  have stop := placed.stop_of_split
  rw [Nat.zero_add] at start stop
  refine ⟨nonempty, ?_, ?_, ?_⟩
  · rw [start, whole]
    exact isValid_utf8ByteSize _ _
  · rw [stop, whole, ← String.append_assoc]
    exact isValid_utf8ByteSize _ _
  · rw [start, stop, whole]
    exact extract_append_append _ _ _

/-! ## All spans -/

/-- The spans of the tokens follow each other from the start of a text to its end. -/
structure Contiguous (tokens : List Token) (length : Nat) : Prop where
  first : ∀ t ∈ tokens.head?, t.start = 0
  next : tokens.IsChain fun t u => u.start = t.stop
  last : ∀ t ∈ tokens.getLast?, t.stop = length

theorem Placed.isChain (placed : Placed start tokens) :
    tokens.IsChain fun t u => u.start = t.stop := by
  induction tokens generalizing start with
  | nil => exact .nil
  | cons t ts ih =>
    obtain ⟨_, _, rest⟩ := placed
    cases ts with
    | nil => exact .singleton t
    | cons u us => exact isChain_cons_cons.mpr ⟨rest.1, ih rest⟩

/-- The spans follow each other from the start of the source to its end. -/
theorem contiguous_scan (source : String) : Contiguous (scan source) source.utf8ByteSize where
  first := by
    have placed := placed_scan source
    intro t first
    obtain ⟨ts, split⟩ := head?_eq_some_iff.mp first
    rw [split] at placed
    exact placed.1
  next := (placed_scan source).isChain
  last := by
    have placed := placed_scan source
    intro t last
    obtain ⟨ts, split⟩ := getLast?_eq_some_iff.mp last
    rw [split] at placed
    have whole : concat ts ++ t.text = source := by
      rw [← concat_scan source, split, concat_append]
      simp [concat]
    rw [placed.stop_of_split, whole, Nat.zero_add]

/-! ## What the readers took -/

/-- The token is what is read where it stands: its kind is what the reader finds there, and its text
has the first character and those that the reader takes. -/
def IsReading (source : String) (t : Token) : Prop :=
  ∃ (front : List Char) (operand : Bool) (c : Char) (cs : List Char),
    source.toList = front ++ c :: cs ∧ byteLength front = t.start ∧
    t.kind = (read operand c cs).value ∧ t.text.length = (read operand c cs).size + 1

theorem exists_read_of_split {operand : Bool} {cs : List Char} :
    ∀ before : List Token, scanFrom operand start cs = before ++ t :: after →
      ∃ (operand : Bool) (d : Char) (ds : List Char),
        cs = (concat before).toList ++ d :: ds ∧ t.kind = (read operand d ds).value ∧
        t.text = String.ofList (d :: ds.take (read operand d ds).size) := by
  fun_induction scanFrom operand start cs with
  | case1 =>
    intro before split
    simp at split
  | case2 operand start c cs reading token operand' ih =>
    intro before split
    cases before with
    | nil =>
      obtain ⟨rfl, _⟩ := List.cons.inj split
      exact ⟨operand, c, cs, by simp [concat], rfl, rfl⟩
    | cons u us =>
      obtain ⟨rfl, rest⟩ := List.cons.inj split
      obtain ⟨operand'', d, ds, left, kind, text⟩ := ih us rest
      refine ⟨operand'', d, ds, ?_, kind, text⟩
      rw [concat_cons, String.toList_append, append_assoc, ← left]
      simp [token]

/-- A token has exactly the characters that its reader took, closed or not. -/
theorem isReading_of_mem_scan (source : String) : ∀ t ∈ scan source, IsReading source t := by
  intro t member
  obtain ⟨before, after, split⟩ := append_of_mem member
  obtain ⟨operand, c, cs, left, kind, text⟩ := exists_read_of_split before split
  have placed := placed_scan source
  rw [split] at placed
  refine ⟨(concat before).toList, operand, c, cs, left, ?_, kind, ?_⟩
  · rw [byteLength_toList, placed.start_of_split, Nat.zero_add]
  · have fits := size_read_le operand c cs
    rw [text, String.length_ofList, length_cons, length_take_of_le fits]

/-! ## Spelling -/

/-- A name or an operator is what the text of its token spells. -/
def Kind.Spelled (kind : Kind) (text : String) : Prop :=
  match kind with
  | .identifier name => name = text
  | .punct symbol => symbol = text
  | _ => True

theorem Spelling.spelled {c : Char} {taken : List Char} {kind : Kind}
    (spelling : Spelling c taken kind) : kind.Spelled (String.ofList (c :: taken)) := by
  cases spelling with
  | name | operator => rfl
  | stray => trivial
  | other notPlain =>
    cases kind with
    | identifier | punct => cases notPlain
    | _ => trivial

theorem spelled_of_mem_scan (source : String) : ∀ t ∈ scan source, t.kind.Spelled t.text := by
  intro t member
  obtain ⟨before, after, split⟩ := append_of_mem member
  obtain ⟨operand, c, cs, _, kind, text⟩ := exists_read_of_split before split
  rw [kind, text]
  exact (spelling_read operand c cs).spelled

/-- **Reading loses nothing.** Every token of a source spans whole characters, at least one, whose
bytes spell its text; it is what is read where it stands, and has exactly the characters that its
reader took; a name or an operator is what the text spells. The spans follow each other from the
start of the source to its end, so the texts, one after the other, are the source. -/
theorem scan_covers_source (source : String) :
    (∀ t ∈ scan source, Spans source t ∧ IsReading source t ∧ t.kind.Spelled t.text) ∧
      Contiguous (scan source) source.utf8ByteSize ∧ concat (scan source) = source := by
  refine ⟨?_, contiguous_scan source, concat_scan source⟩
  intro t member
  exact ⟨spans_of_mem_scan source t member, isReading_of_mem_scan source t member,
    spelled_of_mem_scan source t member⟩

/-- A template that a string in its substitution keeps from being closed, behind a name of two-byte
letters. -/
theorem scan_covers_source_open_template :
    let source := "қ=\x60ӣ$\x7b'"
    scan source = [⟨.identifier "қ", "қ", 0⟩, ⟨.punct "=", "=", 2⟩,
        ⟨.fault .openString, "\x60ӣ$\x7b'", 3⟩] ∧
      Spans source ⟨.fault .openString, "\x60ӣ$\x7b'", 3⟩ := by
  intro source
  have tokens : scan source = [⟨.identifier "қ", "қ", 0⟩, ⟨.punct "=", "=", 2⟩,
      ⟨.fault .openString, "\x60ӣ$\x7b'", 3⟩] := by
    decide +kernel
  exact ⟨tokens, ((scan_covers_source source).1 _ (by simp [tokens])).1⟩

end Tarkib.Token
