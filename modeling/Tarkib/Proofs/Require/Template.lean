import Tarkib.Bundle.Basic
import Tarkib.Proofs.Token.Template

/-!
# Calls inside templates

A template is one token, whatever its substitutions hold, so calls of `require` inside it are not
found. A code is compared with the template whose only substitution it is.
-/

namespace Tarkib

namespace Bundle

theorem splice_nil (source : String) : splice [] (Token.scan source) = source := by
  rw [splice]
  exact Token.concat_scan source

end Bundle

namespace Require

open Token Compile

/-- There is a call of the free function `require` among words; `before` is the token in front of
them. -/
def HasCall (before : Option Token) (tokens : List Token) : Prop :=
  ∃ front word opening rest, tokens = front ++ word :: opening :: rest ∧
    word.isWord ["require"] = true ∧ opening.isPunct "(" = true ∧
    ∀ t ∈ (before.toList ++ front).getLast?, rebinds t = false

theorem hasCall_cons {before : Option Token} {t u : Token} {rest : List Token} :
    HasCall before (t :: u :: rest) ↔
      (t.isWord ["require"] && !((before.map rebinds).getD false) && u.isPunct "(") = true ∨
        HasCall (some t) (u :: rest) := by
  have free : (∀ b ∈ before.toList.getLast?, rebinds b = false) ↔
      (before.map rebinds).getD false = false := by
    cases before <;> simp
  have last (t : Token) (front : List Token) :
      (before.toList ++ t :: front).getLast? = ((some t).toList ++ front).getLast? := by
    simp [List.getLast?_cons]
  constructor
  · rintro ⟨front, word, opening, later, split, isWord, opens, plain⟩
    cases front with
    | nil =>
      obtain ⟨rfl, rfl, rfl⟩ : t = word ∧ u = opening ∧ rest = later := by simpa using split
      left
      simp_all
    | cons first front =>
      obtain ⟨rfl, inner⟩ : t = first ∧ u :: rest = front ++ word :: opening :: later := by
        simpa using split
      exact .inr ⟨front, word, opening, later, inner, isWord, opens, by rwa [last] at plain⟩
  · rintro (here | ⟨front, word, opening, later, split, isWord, opens, plain⟩)
    · simp only [Bool.and_eq_true, Bool.not_eq_true'] at here
      obtain ⟨⟨isWord, plain⟩, opens⟩ := here
      refine ⟨[], t, u, rest, rfl, isWord, opens, ?_⟩
      rw [List.append_nil]
      exact free.mpr plain
    · refine ⟨t :: front, word, opening, later, by rw [split]; rfl, isWord, opens, ?_⟩
      rwa [last]

/-- There is no call exactly if no word is one. -/
theorem callsFrom_eq_nil_iff {source : String} {before : Option Token} {tokens : List Token} :
    callsFrom source before tokens = [] ↔ ¬ HasCall before tokens := by
  fun_induction callsFrom source before tokens with
  | case1 => simp [HasCall]
  | case2 before t =>
    refine iff_of_true rfl ?_
    rintro ⟨front, word, opening, rest, split, _⟩
    have size := congrArg List.length split
    simp at size
    omega
  | case3 before t u rest later calls ih => simp [hasCall_cons, calls]
  | case4 before t u rest later other ih =>
    rw [hasCall_cons, ih]
    simp [other]

theorem calls_of_isTemplate {source : String} (template : IsTemplate (scan source)) :
    calls source = [] := by
  obtain ⟨t, raw, substituted, alone, kind⟩ := template
  have word : t.isSignificant = true := by rw [isSignificant, kind]; rfl
  rw [calls, alone, significant, List.filter_cons_of_pos word]
  rfl

/-- **Calls inside a template are not found.** A code with balanced brackets makes a template, if no
comment or regular expression in it misleads the reader. If it makes one, no call is found in it, so
what is found there agrees with what is found in the code exactly if the code has no call. Linking
leaves a module that consists of the template as it is, whatever its calls refer to. -/
theorem calls_templated {code : String} (ends : ∀ t ∈ scan code, t.kind.isFault = false)
    (balanced : Balanced ((significant (scan code)).map Token.kind)) :
    ((∀ t ∈ scan code, t.misleads = false) → IsTemplate (scan (templated code))) ∧
    (IsTemplate (scan (templated code)) →
      calls (templated code) = [] ∧
      ((calls (templated code)).map argument = (calls code).map argument ↔
        ¬ HasCall none (significant (scan code))) ∧
      ∀ (m : Module) (id : String) (ids : Bundle.Ids) (externals : List String),
        m.code = templated code → Bundle.link m id ids externals = .ok (templated code)) := by
  refine ⟨isTemplate_templated ends balanced, fun template => ?_⟩
  have none : calls (templated code) = [] := calls_of_isTemplate template
  refine ⟨none, ?_, fun m id ids externals same => ?_⟩
  · rw [none, List.map_nil, eq_comm, List.map_eq_nil_iff, calls, callsFrom_eq_nil_iff]
  · rw [Bundle.link, same, none]
    exact congrArg Except.ok (Bundle.splice_nil _)

theorem calls_templated_literal :
    (∀ t ∈ scan "require('./a')", t.kind.isFault = false) ∧
      Balanced ((significant (scan "require('./a')")).map Token.kind) ∧
      (calls "require('./a')").map argument = [.literal "./a"] ∧
      calls (templated "require('./a')") = [] := by
  have checked : ((scan "require('./a')").all fun t => !t.kind.isFault && !t.misleads) = true ∧
      openAfter [] ((significant (scan "require('./a')")).map Token.kind) = some [] ∧
      (calls "require('./a')").map argument = [.literal "./a"] := by
    decide +kernel
  obtain ⟨tokens, balanced, literal⟩ := checked
  have ends : ∀ t ∈ scan "require('./a')", t.kind.isFault = false := by
    intro t member
    have here := List.all_eq_true.mp tokens t member
    simp_all
  have quiet : ∀ t ∈ scan "require('./a')", t.misleads = false := by
    intro t member
    have here := List.all_eq_true.mp tokens t member
    simp_all
  have balanced := balanced_iff_openAfter.mpr balanced
  obtain ⟨template, hidden⟩ := calls_templated ends balanced
  exact ⟨ends, balanced, literal, (hidden (template quiet)).1⟩

end Require
end Tarkib
