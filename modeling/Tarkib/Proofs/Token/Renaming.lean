import Mathlib.Data.List.Chain
import Mathlib.Data.List.Forall2
import Tarkib.Proofs.Token.Locality

/-!
# Names in place of others

A name is read up to the first character that cannot be part of one, whichever letters it has. So
names of a text can be replaced if two things are watched. A slash has to mean the same behind the
new name as behind the old one, which is a condition on the names alone (`IsDictionary`). And no
name stands directly behind a number, which could go on with the letters of the new name.
-/

namespace Tarkib.Token

open Tarkib.Text

/-! ## Dictionaries -/

/-- Whether the text is a name. -/
def isName (text : String) : Bool :=
  match text.toList with
  | [] => false
  | c :: cs => opensName c && cs.all isIdentifierPart

/-- What stands for the words of the dictionary are names, and a slash behind them means the same as
behind the words. -/
def IsDictionary (dictionary : List (String × String)) : Prop :=
  ∀ entry ∈ dictionary, isName entry.2 = true ∧
    (Kind.identifier entry.2).precedesExpression = (Kind.identifier entry.1).precedesExpression

instance (dictionary : List (String × String)) : Decidable (IsDictionary dictionary) :=
  inferInstanceAs (Decidable (∀ entry ∈ dictionary, _))

theorem read_of_isName {text : String} (name : isName text = true) :
    ∃ c body, text = String.ofList (c :: body) ∧ opensName c = true ∧
      ∀ operand rest, rest.head?.any isIdentifierPart = false →
        read operand c (body ++ rest) = ⟨.identifier text, body.length⟩ := by
  rw [isName] at name
  cases letters : text.toList with
  | nil =>
    rw [letters] at name
    cases name
  | cons c body =>
    rw [letters, Bool.and_eq_true, List.all_eq_true] at name
    obtain ⟨opens, parts⟩ := name
    obtain ⟨start, noSpace, noDigit⟩ := opensName_iff.mp opens
    have spelled : text = String.ofList (c :: body) := by rw [← letters, String.ofList_toList]
    refine ⟨c, body, spelled, opens, ?_⟩
    intro operand rest ends
    rw [any_head?_eq_false_iff, List.length_eq_zero_iff] at ends
    rw [read_identifier noSpace noDigit start, List.takeWhile_append_of_pos parts, ends,
      List.append_nil, spelled]

/-- What can be written for a token: its own text, or if it is a word of the dictionary, the name
that stands for it. -/
inductive Renames (dictionary : List (String × String)) (t : Token) : String → Prop where
  | kept : Renames dictionary t t.text
  | renamed {name text : String} (word : t.kind = .identifier name)
      (known : (name, text) ∈ dictionary) : Renames dictionary t text

/-- What becomes of a token: it stays what it is, or it is a word of the dictionary and becomes the
name that stands for it. -/
inductive Renamed (dictionary : List (String × String)) (t u : Token) : Prop where
  | kept (kind : u.kind = t.kind) (text : u.text = t.text)
  | renamed {name : String} (word : t.kind = .identifier name)
      (known : (name, u.text) ∈ dictionary) (kind : u.kind = .identifier u.text)

/-- No name stands directly behind a number. -/
def NumbersApart (tokens : List Token) : Prop :=
  tokens.IsChain fun t u => t.kind = .number → u.name? = none

instance (tokens : List Token) : Decidable (NumbersApart tokens) :=
  inferInstanceAs (Decidable (tokens.IsChain _))

/-! ## Renamed texts -/

section Renaming

variable {dictionary : List (String × String)} {operand : Bool} {start : Nat} {cs : List Char}

/-- Texts whose names are replaced are alike. -/
theorem alike_renaming (consistent : IsDictionary dictionary) (texts : List String)
    (fits : List.Forall₂ (Renames dictionary) (scanFrom operand start cs) texts) :
    Alike opensName cs (String.join texts).toList := by
  fun_induction scanFrom operand start cs generalizing texts with
  | case1 =>
    cases fits
    exact .nil
  | case2 operand start c cs reading token operand' ih =>
    obtain ⟨text, later, here, others, rfl⟩ := List.forall₂_cons_left_iff.mp fits
    rw [String.join_cons, String.toList_append]
    cases here with
    | kept =>
      have split : c :: cs = token.text.toList ++ cs.drop reading.size := by simp [token]
      rw [split]
      exact (ih later others).append_left _
    | renamed word known =>
      have old := startsWith_read operand c cs
      have kind : (read operand c cs).value = _ := word
      rw [kind] at old
      obtain ⟨d, body, rfl, opens, _⟩ := read_of_isName (consistent _ known).1
      rw [String.toList_ofList]
      exact .opens old opens _ _

theorem head?_renaming {texts : List String}
    (fits : List.Forall₂ (Renames dictionary) (scanFrom operand start cs) texts)
    (noName : ∀ t ∈ (scanFrom operand start cs).head?, t.name? = none) :
    (String.join texts).toList.head? = cs.head? := by
  fun_cases scanFrom operand start cs with
  | case1 =>
    rw [scanFrom] at fits
    cases fits
    rfl
  | case2 c cs reading token operand' =>
    rw [scanFrom] at fits noName
    obtain ⟨text, later, here, _, rfl⟩ := List.forall₂_cons_left_iff.mp fits
    cases here with
    | kept => simp [String.join_cons]
    | renamed word known =>
      have none := noName token rfl
      rw [name?, word] at none
      cases none

theorem exists_read_of_renames {c : Char} {rest : List Char} {text : String}
    (consistent : IsDictionary dictionary)
    (fits : Renames dictionary ⟨(read operand c cs).value,
      String.ofList (c :: cs.take (read operand c cs).size), start⟩ text)
    (alike : Alike opensName (cs.drop (read operand c cs).size) rest)
    (numbers : (read operand c cs).value = .number →
      NumberSees (cs.drop (read operand c cs).size) rest) (start' : Nat) :
    ∃ d body kind, text = String.ofList (d :: body) ∧
      read operand d (body ++ rest) = ⟨kind, body.length⟩ ∧
      kind.isSignificant = (read operand c cs).value.isSignificant ∧
      kind.precedesExpression = (read operand c cs).value.precedesExpression ∧
      Renamed dictionary ⟨(read operand c cs).value,
        String.ofList (c :: cs.take (read operand c cs).size), start⟩ ⟨kind, text, start'⟩ := by
  have split := List.take_append_drop (read operand c cs).size cs
  have size : (cs.take (read operand c cs).size).length = (read operand c cs).size :=
    List.length_take_of_le (size_read_le operand c cs)
  cases fits with
  | kept =>
    have again : read operand c (cs.take (read operand c cs).size ++ rest) =
        read operand c (cs.take (read operand c cs).size ++ cs.drop (read operand c cs).size) :=
      read_append_of_alike uniform_opensName (by rw [split, size]) alike (by rwa [split])
    rw [split] at again
    refine ⟨c, _, (read operand c cs).value, rfl, ?_, rfl, rfl, .kept rfl rfl⟩
    rw [again, size]
  | @renamed name _ word known =>
    obtain ⟨isName, slash⟩ := consistent _ known
    obtain ⟨d, body, spelled, _, readAs⟩ := read_of_isName isName
    have word : (read operand c cs).value = .identifier name := word
    -- The old name ends where no letter follows, and so does the new one.
    have ends : (cs.drop (read operand c cs).size).head?.any isIdentifierPart = false := by
      have readable : (read operand c cs).value.isReadable = true := by
        rw [word]
        rfl
      rw [← Bool.not_eq_true]
      intro runs
      have more : (read operand c cs).size < (read operand c
          (cs.take (read operand c cs).size ++ cs.drop (read operand c cs).size)).size :=
        size_read_take_of_runsInto readable (by rwa [word])
      rw [split] at more
      exact Nat.lt_irrefl _ more
    rw [alike.any_head? uniform_opensName.letter] at ends
    refine ⟨d, body, .identifier text, spelled, readAs operand rest ends, ?_, ?_, ?_⟩
    · rw [word]
      rfl
    · rw [word]
      exact slash
    · exact .renamed word known rfl

/-- All other tokens stay what they are. -/
theorem exists_renamed (consistent : IsDictionary dictionary) (texts : List String)
    (fits : List.Forall₂ (Renames dictionary) (scanFrom operand start cs) texts)
    (apart : NumbersApart (scanFrom operand start cs)) (start' : Nat) :
    (scanFrom operand start' (String.join texts).toList).map Token.text = texts ∧
      List.Forall₂ (Renamed dictionary) (scanFrom operand start cs)
        (scanFrom operand start' (String.join texts).toList) := by
  fun_induction scanFrom operand start cs generalizing texts start' with
  | case1 =>
    cases fits
    rw [String.join_nil, String.toList_empty, scanFrom]
    exact ⟨rfl, .nil⟩
  | case2 operand start c cs reading token operand' ih =>
    obtain ⟨text, later, here, others, rfl⟩ := List.forall₂_cons_left_iff.mp fits
    obtain ⟨first, further⟩ := List.isChain_cons.mp apart
    have numbers : (read operand c cs).value = .number →
        NumberSees (cs.drop reading.size) (String.join later).toList := by
      intro number marked
      rw [head?_renaming others fun t member => first t member number]
    obtain ⟨d, body, kind, rfl, found, word, slash, renamed⟩ :=
      exists_read_of_renames consistent here (alike_renaming consistent later others) numbers
        start'
    have operand_eq :
        (if kind.isSignificant then kind.precedesExpression else operand) = operand' := by
      rw [word, slash]
      rfl
    obtain ⟨spelled, rest⟩ :=
      ih later others further (start' + (String.ofList (d :: body)).utf8ByteSize)
    rw [String.join_cons, String.toList_append, String.toList_ofList, scanFrom_of_read found,
      operand_eq]
    exact ⟨by rw [List.map_cons, spelled], .cons renamed rest⟩

end Renaming

end Tarkib.Token
