import Tarkib.Proofs.Compile.Diagnostics

/-!
# The check of brackets

Lowering checks the brackets of a source before it goes through the tokens, and reports the faults
at the places where their brackets start. The walk with a stack goes on behind a closing bracket
that took one of another shape, with a stack that no properly nested word would leave.
-/

namespace Tarkib.Compile

open Tarkib.Text Tarkib.Token

/-- Whether a problem is one with brackets. -/
def Problem.isBracket : Problem → Bool
  | .bracket _ _ => true
  | _ => false

def bracketProblem (source : String) (entry : Nat × BracketFault) : Problem :=
  .bracket (Position.ofOffset source entry.1) entry.2

/-- Going through the tokens reports nothing about brackets. -/
theorem isBracket_of_mem_lowerFrom {ctx : Context} {p : Problem} (before : List Token)
    (number : Nat) (ls : List Lexeme)
    (member : p ∈ (lowerFrom ctx before number ls).flatMap Item.problems) :
    p.isBracket = false := by
  cases lexical : p.isLexical with
  | true =>
    cases p with
    | bracket => cases lexical
    | _ => rfl
  | false =>
    obtain ⟨t, _, _, kind, rfl⟩ := exists_token_of_mem_lowerFrom lexical before number ls member
    rfl

/-- What is reported about brackets are the faults that the walk finds. -/
theorem bracketProblems_lowerModule (options : Options) (source : String) :
    (lowerModule options source).problems.filter Problem.isBracket =
      (bracketFaults [] (significant (scan source))).map (bracketProblem source) := by
  have faults : ∀ p ∈ (bracketFaults [] (significant (scan source))).map (bracketProblem source),
      p.isBracket = true := by
    intro p member
    obtain ⟨entry, _, rfl⟩ := List.mem_map.mp member
    rfl
  have items : ∀ p ∈ (moduleItems options source).flatMap Item.problems,
      ¬ p.isBracket = true := by
    intro p member
    simp [isBracket_of_mem_lowerFrom _ _ _ member]
  have repeated (names : List String) : (if options.typeCheck then
      names.map Problem.duplicateExport else []).filter Problem.isBracket = [] := by
    split <;> simp [List.filter_map, Problem.isBracket]
  rw [problems_lowerModule, List.filter_append, List.filter_append, repeated,
    List.filter_eq_nil_iff.mpr items, List.append_nil, List.append_nil]
  exact List.filter_eq_self.mpr faults

theorem bracketProblems_compile {options : Options} (source : String)
    (code : options.kind ≠ .json) :
    (compile options source).problems.filter Problem.isBracket =
      (bracketFaults [] (significant (scan source))).map (bracketProblem source) := by
  rw [← bracketProblems_lowerModule options]
  rcases problems_compile code with same | ⟨quiet, problem, alone⟩
  · rw [same]
  · rw [quiet, alone]
    rfl

/-- **The check of brackets is exact.** Compiling a source of Somon or JavaScript reports no problem
of a bracket if and only if the brackets among its tokens are nested properly. Every such problem is
reported at the place where one of these tokens starts. It names this token, and if a closing
bracket took an opening one of another shape, it names that one and its offset as well. -/
theorem bracket_problems_exact (options : Options) (source : String)
    (code : options.kind ≠ .json) :
    let reported := (compile options source).problems.filter Problem.isBracket
    (reported = [] ↔ Balanced ((brackets (scan source)).map Token.kind)) ∧
      ∀ place fault, Problem.bracket place fault ∈ reported →
        ∃ front t behind, brackets (scan source) = front ++ t :: behind ∧
          place = Position.ofOffset source t.start ∧ fault.Concerns front t := by
  intro reported
  have faults : reported = _ := bracketProblems_compile source code
  rw [faults, ← brackets_significant]
  refine ⟨?_, ?_⟩
  · rw [List.map_eq_nil_iff, bracketFaults_eq_nil_iff, balanced_brackets_iff]
  · intro place fault member
    obtain ⟨entry, found, same⟩ := List.mem_map.mp member
    obtain ⟨rfl, rfl⟩ := Problem.bracket.inj same
    obtain ⟨front, t, behind, split, start, concerns⟩ := isAbout_bracketFaults _ entry found
    exact ⟨front, t, behind, split, by rw [start], concerns⟩

/-- Brackets in a regular expression and a string do not count. Of those that do two cross each
other, and both closing brackets are reported. -/
theorem bracket_problems_exact_crossed :
    let source := "f(/[(]/, '(', [x)]"
    (compile {} source).problems.filter Problem.isBracket = [
        .bracket ⟨1, 17⟩ (.mismatched .round .square 14),
        .bracket ⟨1, 18⟩ (.mismatched .square .round 1)] ∧
      (brackets (scan source)).map Token.text = ["(", "[", ")", "]"] ∧
      ¬ Balanced ((brackets (scan source)).map Token.kind) := by
  intro source
  have computed : (bracketFaults [] (significant (scan source))).map (bracketProblem source) = [
        .bracket ⟨1, 17⟩ (.mismatched .round .square 14),
        .bracket ⟨1, 18⟩ (.mismatched .square .round 1)] ∧
      (brackets (scan source)).map Token.text = ["(", "[", ")", "]"] := by
    decide +kernel
  have code : ({} : Options).kind ≠ .json := by decide
  have reported := (bracketProblems_compile source code).trans computed.1
  refine ⟨reported, computed.2, fun balanced => ?_⟩
  have none := (bracket_problems_exact {} source code).1.mpr balanced
  rw [reported] at none
  cases none

end Tarkib.Compile
