import Tarkib.Compile.Declaration

/-!
# Clauses of declarations

A declaration of imports or exports is parsed from names and delimiters, each of which is looked at
before it is counted, and a literal that names a module. `Clause` says this of names and delimiters,
`Source` of the part with the literal.
-/

namespace Tarkib.Compile

open Tarkib.Token List

def isClausal : Kind → Bool
  | .identifier _ => true
  | .punct symbol => ["\x7b", "\x7d", ",", "*", ";"].contains symbol
  | _ => false

/-- Tokens that are names and delimiters, and names that are found among them. The name of the
default export stands for the words for it. -/
structure Clause (ts : List Token) (names : List String) : Prop where
  clausal : ∀ t ∈ ts, isClausal t.kind = true
  known : ∀ name ∈ names, name = "default" ∨ ∃ t ∈ ts, t.name? = some name

variable {t : Token} {ts us : List Token} {names more : List String} {name text : String}

namespace Clause

theorem nil : Clause [] [] :=
  ⟨forall_mem_nil _, forall_mem_nil _⟩

theorem append (first : Clause ts names) (second : Clause us more) :
    Clause (ts ++ us) (names ++ more) where
  clausal := forall_mem_append.mpr ⟨first.clausal, second.clausal⟩
  known name member := by
    rcases mem_append.mp member with here | there
    · rcases first.known name here with standard | ⟨t, inside, named⟩
      · exact .inl standard
      · exact .inr ⟨t, mem_append_left _ inside, named⟩
    · rcases second.known name there with standard | ⟨t, inside, named⟩
      · exact .inl standard
      · exact .inr ⟨t, mem_append_right _ inside, named⟩

theorem mono (clause : Clause ts names) (fewer : ∀ name ∈ more, name = "default" ∨ name ∈ names) :
    Clause ts more where
  clausal := clause.clausal
  known name member := (fewer name member).elim .inl (clause.known name)

theorem of_name (named : t.name? = some name) : Clause [t] [name] where
  clausal := by
    unfold name? at named
    split at named
    · next kind => exact forall_mem_singleton.mpr (by rw [kind]; rfl)
    · cases named
  known := by simp [named]

theorem of_isWord (word : t.isWord names = true) : Clause [t] [] where
  clausal := by
    unfold isWord at word
    split at word
    · next kind => exact forall_mem_singleton.mpr (by rw [kind]; rfl)
    · cases word
  known := forall_mem_nil _

theorem of_isPunct {symbol : String} (punct : t.isPunct symbol = true)
    (delimits : isClausal (.punct symbol) = true) : Clause [t] [] where
  clausal := forall_mem_singleton.mpr (by rwa [beq_iff_eq.mp punct])
  known := forall_mem_nil _

end Clause

/-! ## Names between braces -/

def bound (bs : List Binding) : List String :=
  bs.flatMap fun b => [b.outer, b.inner]

theorem Clause.binding {outer inner : String} {bs : List Binding}
    (clause : Clause ts (names ++ bound bs)) (outerKnown : outer = "default" ∨ outer ∈ names)
    (innerKnown : inner = "default" ∨ inner ∈ names) :
    Clause ts (bound (⟨outer, inner⟩ :: bs)) := by
  refine clause.mono (forall_mem_cons.mpr ⟨?_, forall_mem_cons.mpr ⟨?_, ?_⟩⟩)
  · exact outerKnown.imp_right (mem_append_left _)
  · exact innerKnown.imp_right (mem_append_left _)
  · exact fun name member => .inr (mem_append_right _ member)

/-- A list of names is a clause that ends with its closing brace. -/
theorem parseNames_spec (ts : List Token) (parsed : Parsed (List Binding))
    (found : parseNames ts = some parsed) :
    ∃ front last, ts.take parsed.size = front ++ [last] ∧ last.isPunct "\x7d" = true ∧
      Clause front (bound parsed.value) := by
  have known {name : String} {names : List String} (member : name ∈ names) :
      (if defaultWords.contains name then "default" else name) = "default" ∨
        (if defaultWords.contains name then "default" else name) ∈ names := by
    split
    · exact .inl rfl
    · exact .inr member
  fun_induction parseNames ts generalizing parsed with
  | case1 | case3 | case6 | case9 => cases found
  | case2 t ts closes =>
    cases found
    exact ⟨[], t, rfl, closes, .nil⟩
  | case4 t _ name u named outer as_ a v vs alias_ aliased comma ih =>
    obtain ⟨inner, rest, rfl⟩ := Option.map_eq_some_iff.mp found
    obtain ⟨front, last, same, closes, clause⟩ := ih inner rest
    have taken : Clause (t :: u :: a :: v :: front) ([name, alias_] ++ bound inner.value) :=
      (Clause.of_name named).append ((Clause.of_isWord as_).append
        ((Clause.of_name aliased).append ((Clause.of_isPunct comma rfl).append clause)))
    exact ⟨t :: u :: a :: v :: front, last, by simp [Parsed.later, same], closes,
      taken.binding (known (by simp)) (by simp)⟩
  | case5 t _ name u named outer as_ a v vs alias_ aliased noComma ih =>
    obtain ⟨inner, rest, rfl⟩ := Option.map_eq_some_iff.mp found
    obtain ⟨front, last, same, closes, clause⟩ := ih inner rest
    have taken : Clause (t :: u :: a :: front) ([name, alias_] ++ bound inner.value) :=
      (Clause.of_name named).append ((Clause.of_isWord as_).append
        ((Clause.of_name aliased).append clause))
    exact ⟨t :: u :: a :: front, last, by simp [Parsed.later, same], closes,
      taken.binding (known (by simp)) (by simp)⟩
  | case7 t _ name u us named outer noAs comma ih =>
    obtain ⟨inner, rest, rfl⟩ := Option.map_eq_some_iff.mp found
    obtain ⟨front, last, same, closes, clause⟩ := ih inner rest
    have taken : Clause (t :: u :: front) ([name] ++ bound inner.value) :=
      (Clause.of_name named).append ((Clause.of_isPunct comma rfl).append clause)
    exact ⟨t :: u :: front, last, by simp [Parsed.later, same], closes,
      taken.binding (known (by simp)) (known (by simp))⟩
  | case8 t _ name u us named outer noAs noComma ih =>
    obtain ⟨inner, rest, rfl⟩ := Option.map_eq_some_iff.mp found
    obtain ⟨front, last, same, closes, clause⟩ := ih inner rest
    have taken := (Clause.of_name named).append clause
    exact ⟨t :: front, last, by simp [Parsed.later, same], closes,
      taken.binding (known (by simp)) (known (by simp))⟩

theorem parseBraces_spec {parsed : Parsed (List Binding)} (found : parseBraces ts = some parsed) :
    ∃ front last, ts.take parsed.size = front ++ [last] ∧ last.isPunct "\x7d" = true ∧
      Clause front (bound parsed.value) := by
  cases ts with
  | nil => cases found
  | cons t ts =>
    rw [parseBraces] at found
    split at found
    · next opens =>
        obtain ⟨inner, rest, rfl⟩ := Option.map_eq_some_iff.mp found
        obtain ⟨front, last, same, closes, clause⟩ := parseNames_spec ts inner rest
        exact ⟨t :: front, last, by simp [Parsed.later, same], closes,
          (Clause.of_isPunct opens rfl).append clause⟩
    · cases found

theorem parseStarAs_spec {parsed : Parsed String} (found : parseStarAs ts = some parsed) :
    parsed.size = 3 ∧ Clause (ts.take 3) [parsed.value] := by
  unfold parseStarAs at found
  split at found
  · next first second third rest =>
      split at found
      · next words =>
          rw [Bool.and_eq_true] at words
          obtain ⟨name, named, rfl⟩ := Option.map_eq_some_iff.mp found
          exact ⟨rfl, (Clause.of_isPunct words.1 rfl).append
            ((Clause.of_isWord words.2).append (.of_name named))⟩
      · cases found
  · cases found

/-! ## Modules that declarations refer to -/

/-- An optional semicolon. -/
def Semicolon (ts : List Token) : Prop :=
  ts = [] ∨ ∃ t, ts = [t] ∧ t.isPunct ";" = true

theorem semicolon_take (ts : List Token) : Semicolon (ts.take (semicolonSize ts)) := by
  unfold semicolonSize
  split
  · next starts =>
      cases ts with
      | nil => exact .inl rfl
      | cons t ts => exact .inr ⟨t, rfl, starts⟩
  · exact .inl rfl

theorem Semicolon.clause (semicolon : Semicolon ts) : Clause ts [] := by
  rcases semicolon with rfl | ⟨t, rfl, punct⟩
  · exact .nil
  · exact .of_isPunct punct rfl

/-- Some words, the literal with the given text and an optional semicolon. -/
structure Source (ts : List Token) (text : String) : Prop where
  shape : ∃ front literal rest, ts = front ++ literal :: rest ∧ Clause front [] ∧
    (∃ value, literal.kind = .string value) ∧ literal.text = text ∧ Semicolon rest

theorem source_of_stringText (literal : stringText? ts = some text) :
    Source (ts.take (1 + semicolonSize (ts.drop 1))) text := by
  cases ts with
  | nil => cases literal
  | cons t ts =>
    rw [stringText?] at literal
    split at literal
    · next value kind =>
        cases literal
        rw [Nat.add_comm]
        exact ⟨[], t, _, rfl, .nil, ⟨value, kind⟩, rfl, semicolon_take ts⟩
    · cases literal

theorem source_of_parseFrom {parsed : Parsed String} (found : parseFrom ts = some parsed) :
    Source (ts.take parsed.size) parsed.value := by
  cases ts with
  | nil => cases found
  | cons t ts =>
    rw [parseFrom] at found
    split at found
    · next word =>
        obtain ⟨text, literal, rfl⟩ := Option.map_eq_some_iff.mp found
        obtain ⟨front, string, rest, same, clause, others⟩ := (source_of_stringText literal).shape
        refine ⟨t :: front, string, rest, ?_, (Clause.of_isWord word).append clause, others⟩
        rw [cons_append, ← same, ← take_succ_cons]
        exact congrArg (List.take · (t :: ts)) (show 2 + _ = 1 + _ + 1 by omega)
    · cases found

/-! ## Declarations -/

namespace Import

def bound (d : Import) : List String :=
  d.main?.toList ++ (d.whole?.toList ++ Compile.bound d.names)

theorem clause_parseDefault (ts : List Token) :
    Clause (ts.take (parseDefault ts).size) (parseDefault ts).value.toList := by
  cases ts with
  | nil => exact .nil
  | cons t rest =>
    rw [parseDefault]
    split
    · next name named =>
        split
        · exact .nil
        · dsimp only
          split
          · next comma =>
              cases rest with
              | nil => cases comma
              | cons u us => exact (Clause.of_name named).append (.of_isPunct comma rfl)
          · exact .of_name named
    · exact .nil

theorem clause_parseBindings {parsed : Parsed (Option String × List Binding)}
    (found : parseBindings ts = some parsed) :
    Clause (ts.take parsed.size) (parsed.value.1.toList ++ Compile.bound parsed.value.2) := by
  unfold parseBindings at found
  split at found
  · obtain ⟨star, parsedStar, rfl⟩ := Option.map_eq_some_iff.mp found
    obtain ⟨size, clause⟩ := parseStarAs_spec parsedStar
    rwa [← size] at clause
  · split at found
    · obtain ⟨braces, parsedBraces, rfl⟩ := Option.map_eq_some_iff.mp found
      obtain ⟨front, last, same, closes, clause⟩ := parseBraces_spec parsedBraces
      have taken := clause.append (Clause.of_isPunct closes rfl)
      rwa [← same, append_nil] at taken
    · cases found
      exact .nil

/-- An import is made of clauses and its source, whatever stands behind it. -/
theorem made_of_parse {parsed : Parsed Import} (found : parse? ts = some parsed) :
    ∃ front rest, ts.take parsed.size = front ++ rest ∧ Clause front parsed.value.bound ∧
      Source rest parsed.value.source := by
  unfold parse? at found
  split at found
  · next source literal =>
      cases found
      exact ⟨[], _, rfl, .nil, source_of_stringText literal⟩
  · obtain ⟨bindings, parsedBindings, found⟩ := Option.bind_eq_some_iff.mp found
    obtain ⟨source, parsedSource, found⟩ := Option.bind_eq_some_iff.mp found
    cases found
    refine ⟨_, _, ?_, (clause_parseDefault ts).append (clause_parseBindings parsedBindings),
      source_of_parseFrom parsedSource⟩
    rw [take_add, take_add]

end Import

/-- The tokens from which an export is made. -/
inductive Export.Made : Export → List Token → Prop where
  | default {t : Token} (word : t.isWord defaultWords = true) : Made .default [t]
  | declared (names : List String) : Made (.declared names) []
  | listed {front rest : List Token} {last : Token} {names : List Binding}
      (clause : Clause front (bound names)) (closes : last.isPunct "\x7d" = true)
      (semicolon : Semicolon rest) : Made (.listed names) (front ++ last :: rest)
  | listedFrom {front rest : List Token} {names : List Binding} {text : String}
      (clause : Clause front (bound names)) (source : Source rest text) :
      Made (.listedFrom names text) (front ++ rest)
  | all {front rest : List Token} {text : String} (clause : Clause front [])
      (source : Source rest text) : Made (.all text) (front ++ rest)
  | allAs {front rest : List Token} {name text : String} (clause : Clause front [name])
      (source : Source rest text) : Made (.allAs name text) (front ++ rest)

theorem bound_turned {bs : List Binding} (clause : Clause ts (bound bs)) :
    Clause ts (bound (bs.map Export.turned)) := by
  refine clause.mono fun name member => .inr ?_
  simp only [bound, mem_flatMap, mem_map] at member ⊢
  obtain ⟨_, ⟨b, listed, rfl⟩, named⟩ := member
  exact ⟨b, listed, by simpa [Export.turned, or_comm] using named⟩

/-- So is an export. -/
theorem Export.made_of_parse {ls : List Lexeme} {parsed : Parsed Export}
    (found : parse? ls = some parsed) :
    parsed.value.Made ((ls.take parsed.size).map Lexeme.token) := by
  rw [map_take]
  cases ls with
  | nil => cases found
  | cons l rest =>
    rw [map_cons]
    rw [parse?] at found
    split at found
    · next word =>
        cases found
        exact .default word
    split at found
    · obtain ⟨name, _, rfl⟩ := Option.map_eq_some_iff.mp found
      exact .declared [name]
    split at found
    · cases found
      exact .declared _
    split at found
    · obtain ⟨names, parsedNames, found⟩ := Option.bind_eq_some_iff.mp found
      obtain ⟨front, last, same, closes, clause⟩ := parseBraces_spec parsedNames
      split at found
      · next source parsedSource =>
          cases found
          rw [take_add, same]
          have taken := (bound_turned clause).append (Clause.of_isPunct closes rfl)
          rw [append_nil] at taken
          exact .listedFrom taken (source_of_parseFrom parsedSource)
      · cases found
        rw [take_add, same, append_assoc]
        exact .listed (bound_turned clause) closes (semicolon_take _)
    split at found
    · next star =>
        split at found
        · next source parsedSource =>
            cases found
            rw [take_add]
            exact .all (.of_isPunct star rfl) (source_of_parseFrom parsedSource)
        · obtain ⟨name, parsedName, found⟩ := Option.bind_eq_some_iff.mp found
          obtain ⟨source, parsedSource, found⟩ := Option.bind_eq_some_iff.mp found
          cases found
          rw [take_add]
          exact .allAs (parseStarAs_spec parsedName).2 (source_of_parseFrom parsedSource)
    · cases found

end Tarkib.Compile
