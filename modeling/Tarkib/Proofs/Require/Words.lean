import Tarkib.Proofs.Bundle.Words
import Tarkib.Require

/-!
# Calls among words

Words among which certain specifiers are found, whatever follows them, can be put one behind the
other (`Finds`).
-/

namespace Tarkib.Require

open Token Tarkib.Bundle

/-! ## Specifiers of words -/

def literal? : List Kind → Option String
  | [] => none
  | kind :: rest =>
    match kind with
    | .string value | .template value false =>
      if rest.head? == some (.punct ")") then some value else none
    | _ => none

def rebindsKind (kind : Kind) : Bool :=
  kind == .punct "." || kind == .punct "?." || kind == .identifier "function"

/-- The specifiers of the calls among words of the given kinds. `rebound` says that the word in
front of them makes the first one something else than the free function. -/
def specifiersOf (rebound : Bool) : List Kind → List String
  | [] => []
  | kind :: rest =>
    let later := specifiersOf (rebindsKind kind) rest
    if kind == .identifier "require" && !rebound && rest.head? == some (.punct "(") then
      (literal? rest.tail).toList ++ later
    else later

theorem isWord_singleton (t : Token) (name : String) :
    t.isWord [name] = (t.kind == .identifier name) := by
  rw [Bool.eq_iff_iff, beq_iff_eq, isWord]
  split
  · next word => simp [word]
  · next other => simpa using other name

theorem rebinds_eq_rebindsKind (t : Token) : rebinds t = rebindsKind t.kind := by
  rw [rebinds, rebindsKind, isWord_singleton]
  rfl

theorem specifier?_ofTokens (source : String) (word : Token) (inside : List Token) :
    (ofTokens source word inside).specifier? = literal? (inside.map Token.kind) := by
  cases inside with
  | nil => rfl
  | cons first rest =>
    have closed : (rest.head?.map (·.isPunct ")")).getD false =
        ((rest.map Token.kind).head? == some (.punct ")")) := by
      cases rest with
      | nil => rfl
      | cons second rest => simp [isPunct]
    simp only [ofTokens, specifier?, Argument.ofToken, closed, List.map_cons, literal?]
    cases kind : first.kind with
    | string value => cases (rest.map Token.kind).head? == some (.punct ")") <;> rfl
    | template value substituted =>
      cases substituted <;> cases (rest.map Token.kind).head? == some (.punct ")") <;> rfl
    | _ => rfl

theorem filterMap_callsFrom (source : String) (before : Option Token) (tokens : List Token) :
    (callsFrom source before tokens).filterMap specifier? =
      specifiersOf ((before.map rebinds).getD false) (tokens.map Token.kind) := by
  have condition (t u : Token) (rebound : Bool) (rest : List Token) :
      (t.isWord ["require"] && !rebound && u.isPunct "(") =
        (t.kind == .identifier "require" && !rebound &&
          ((u :: rest).map Token.kind).head? == some (.punct "(")) := by
    rw [isWord_singleton]
    simp [isPunct]
  fun_induction callsFrom source before tokens with
  | case1 => rfl
  | case2 before t => simp [specifiersOf]
  | case3 before t u rest later calls ih =>
    rw [condition t u _ rest] at calls
    rw [List.map_cons, specifiersOf, if_pos calls, ← rebinds_eq_rebindsKind, List.map_cons,
      List.tail_cons, ← specifier?_ofTokens source t, List.filterMap_cons, ih]
    cases (ofTokens source t rest).specifier? <;> rfl
  | case4 before t u rest later other ih =>
    rw [condition t u _ rest] at other
    rw [List.map_cons, specifiersOf, if_neg other, ← rebinds_eq_rebindsKind, ih]
    rfl

/-- Which specifiers a code refers to can be seen from the kinds of its words. -/
theorem specifiers_eq (source : String) :
    specifiers source = (specifiersOf false ((words (scan source)).map Prod.fst)).eraseDups := by
  rw [specifiers, calls, filterMap_callsFrom, map_fst_words]
  rfl

/-! ## Words behind words -/

/-- Words among which the given specifiers are found, whatever follows; they start and end so that a
call can follow. -/
def Finds (kinds : List Kind) (found : List String) : Prop :=
  ∀ rest, specifiersOf false (kinds ++ rest) = found ++ specifiersOf false rest

theorem finds_nil : Finds [] [] :=
  fun _ => rfl

theorem Finds.append {kinds kinds' : List Kind} {found found' : List String}
    (first : Finds kinds found) (second : Finds kinds' found') :
    Finds (kinds ++ kinds') (found ++ found') := by
  intro rest
  rw [List.append_assoc, first, second, List.append_assoc]

theorem specifiersOf_cons_of_ne {kind : Kind} (other : kind ≠ .identifier "require")
    (rebound : Bool) (rest : List Kind) :
    specifiersOf rebound (kind :: rest) = specifiersOf (rebindsKind kind) rest := by
  rw [specifiersOf]
  simp [other]

theorem finds_punct {symbol : String} (plain : rebindsKind (.punct symbol) = false) :
    Finds [.punct symbol] [] := by
  intro rest
  rw [List.singleton_append, specifiersOf_cons_of_ne (by simp), plain]
  rfl

theorem finds_name {symbol : String} (name : String) (plain : rebindsKind (.punct symbol) = false)
    (noCall : symbol ≠ "(") : Finds [.identifier name, .punct symbol] [] := by
  intro rest
  have skipped : specifiersOf false (.identifier name :: .punct symbol :: rest) =
      specifiersOf (rebindsKind (.identifier name)) (.punct symbol :: rest) := by
    rw [specifiersOf]
    simp [noCall]
  rw [List.cons_append, List.singleton_append, skipped, specifiersOf_cons_of_ne (by simp), plain]
  rfl

/-- The words of a call. -/
theorem finds_call (value : String) :
    Finds [.identifier "require", .punct "(", .string value, .punct ")"] [value] :=
  fun _ => rfl

end Tarkib.Require
