import Tarkib.Proofs.Compile.Translation

/-!
# Tokens that declarations are parsed from

A declaration of imports or exports is made of clauses and at most one string. So no parser steps
over a token of another kind; in particular all tokens of a declaration can be read.
-/

namespace Tarkib.Compile

open Tarkib.Token

variable {t : Token} {parsed : Parsed Import} {names : List String} {symbol : String} {kind : Kind}

/-! ## Tokens -/

/-- Whether a token of this kind can be part of a declaration. -/
def isDeclarative : Kind → Bool
  | .identifier _ | .string _ => true
  | .punct symbol => ["\x7b", "\x7d", ",", "*", ";"].contains symbol
  | _ => false

/-- Whether a declaration can end with a token of this kind. -/
def endsDeclaration : Kind → Bool
  | .identifier name => defaultWords.contains name
  | kind => isDeclarative kind

section Token

theorem isWritable_of_isDeclarative (declarative : isDeclarative kind = true) :
    isWritable kind = true := by
  cases kind with
  | fault | stray => cases declarative
  | _ => rfl

theorem isDeclarative_of_isClausal (clausal : isClausal kind = true) :
    isDeclarative kind = true := by
  cases kind with
  | identifier | punct => exact clausal
  | _ => cases clausal

theorem isDeclarative_of_isWord (word : t.isWord names = true) : isDeclarative t.kind = true :=
  isDeclarative_of_isClausal ((Clause.of_isWord word).clausal t List.mem_cons_self)

theorem isWritable_of_isWord (word : t.isWord names = true) : isWritable t.kind = true :=
  isWritable_of_isDeclarative (isDeclarative_of_isWord word)

theorem isWritable_of_isPunct (punct : t.isPunct symbol = true) : isWritable t.kind = true := by
  have kind : t.kind = .punct symbol := beq_iff_eq.mp punct
  rw [kind]
  rfl

end Token

def Declarative (ts : List Token) : Prop :=
  ∀ t ∈ ts, isDeclarative t.kind = true

theorem declarative_nil : Declarative [] := by
  simp [Declarative]

variable {ts us : List Token} {text : String} {ls : List Lexeme}

theorem declarative_cons (first : isDeclarative t.kind = true) (rest : Declarative ts) :
    Declarative (t :: ts) :=
  List.forall_mem_cons.mpr ⟨first, rest⟩

theorem Declarative.append (first : Declarative ts) (second : Declarative us) :
    Declarative (ts ++ us) :=
  List.forall_mem_append.mpr ⟨first, second⟩

theorem Clause.declarative (clause : Clause ts names) : Declarative ts :=
  fun t member => isDeclarative_of_isClausal (clause.clausal t member)

theorem Source.declarative (source : Source ts text) : Declarative ts := by
  obtain ⟨front, literal, rest, rfl, clause, ⟨value, kind⟩, _, semicolon⟩ := source.shape
  have literals : Declarative (literal :: rest) :=
    declarative_cons (by rw [kind]; rfl) semicolon.clause.declarative
  exact clause.declarative.append literals

/-- An import is parsed from names, delimiters and strings only. -/
theorem declarative_parse_import (import_ : Import.parse? ts = some parsed) :
    Declarative (ts.take parsed.size) := by
  obtain ⟨front, rest, same, clause, source⟩ := Import.made_of_parse import_
  rw [same]
  exact clause.declarative.append source.declarative

/-- So is an export. -/
theorem declarative_parse_export {parsed : Parsed Export}
    (export_ : Export.parse? ls = some parsed) :
    Declarative ((ls.take parsed.size).map Lexeme.token) := by
  have made := Export.made_of_parse export_
  generalize parsed.value = e, (ls.take parsed.size).map Lexeme.token = ts at made ⊢
  cases made with
  | default word => exact (Clause.of_isWord word).declarative
  | declared names => exact declarative_nil
  | listed clause closes semicolon =>
    exact (clause.append ((Clause.of_isPunct closes rfl).append semicolon.clause)).declarative
  | listedFrom clause source
  | all clause source
  | allAs clause source => exact clause.declarative.append source.declarative

/-! ## The last token -/

/-- The last token is one with which a declaration can end. -/
def Ends (ts : List Token) : Prop :=
  ∃ front last, ts = front ++ [last] ∧ endsDeclaration last.kind = true

theorem ends_singleton (last : endsDeclaration t.kind = true) : Ends [t] :=
  ⟨[], t, rfl, last⟩

theorem Ends.append_left (ends : Ends ts) (us : List Token) : Ends (us ++ ts) := by
  obtain ⟨front, last, rfl, found⟩ := ends
  exact ⟨us ++ front, last, (List.append_assoc _ _ _).symm, found⟩

theorem ends_of_isPunct (punct : t.isPunct symbol = true)
    (known : isDeclarative (.punct symbol) = true) : Ends [t] := by
  have kind : t.kind = .punct symbol := beq_iff_eq.mp punct
  refine ends_singleton ?_
  rwa [kind]

theorem Ends.semicolon (ends : Ends [t]) (semicolon : Semicolon ts) : Ends (t :: ts) := by
  rcases semicolon with rfl | ⟨u, rfl, punct⟩
  · exact ends
  · exact (ends_of_isPunct punct rfl).append_left [t]

theorem Source.ends (source : Source ts text) : Ends ts := by
  obtain ⟨front, literal, rest, rfl, _, ⟨value, kind⟩, _, semicolon⟩ := source.shape
  exact ((ends_singleton (by rw [kind]; rfl)).semicolon semicolon).append_left front

/-- An import ends with a string or a delimiter. -/
theorem ends_parse_import (import_ : Import.parse? ts = some parsed) :
    Ends (ts.take parsed.size) := by
  obtain ⟨front, rest, same, _, source⟩ := Import.made_of_parse import_
  rw [same]
  exact source.ends.append_left front

/-- An export does too, or ends with the word for the default export. -/
theorem ends_parse_export {parsed : Parsed Export} (export_ : Export.parse? ls = some parsed)
    (some : parsed.size ≠ 0) : Ends ((ls.take parsed.size).map Lexeme.token) := by
  have taken : (ls.take parsed.size).map Lexeme.token ≠ [] := by
    cases ls with
    | nil => cases export_
    | cons l rest => simp [some]
  have made := Export.made_of_parse export_
  generalize parsed.value = e, (ls.take parsed.size).map Lexeme.token = ts at made taken ⊢
  cases made with
  | default word =>
    refine ends_singleton ?_
    unfold isWord at word
    split at word
    · next name kind => rwa [kind]
    · cases word
  | declared names => exact absurd rfl taken
  | listed clause closes semicolon =>
    exact ((ends_of_isPunct closes rfl).semicolon semicolon).append_left _
  | listedFrom clause source
  | all clause source
  | allAs clause source => exact source.ends.append_left _

end Tarkib.Compile
