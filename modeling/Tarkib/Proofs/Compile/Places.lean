import Tarkib.Proofs.Compile.Diagnostics

/-!
# Where places are looked up

A place that is reported was looked up at an offset. The place of an offset inside of a character is
that of the character, so the places in the source do not tell where they were looked up. Therefore
the tokens stay those of the source while the text varies in which their offsets are looked up
(`LooksUp`). No two offsets have the same place in all texts.
-/

namespace Tarkib.Compile

open Tarkib.Text Tarkib.Token List
open String.Pos.Raw (IsValid)

/-- The places, given for each text in which offsets may be looked up, are those of offsets that lie
between characters of the source. -/
def LooksUp (source : String) (places : String → List Position) : Prop :=
  ∃ offsets : List Nat, (∀ offset ∈ offsets, IsValid source ⟨offset⟩) ∧
    ∀ text, places text = offsets.map (Position.ofOffset text)

variable {source : String} {ts : List Token}

namespace LooksUp

theorem nil : LooksUp source fun _ => [] :=
  ⟨[], forall_mem_nil _, fun _ => rfl⟩

theorem append {first second : String → List Position} (here : LooksUp source first)
    (there : LooksUp source second) : LooksUp source fun text => first text ++ second text := by
  obtain ⟨offsets, valid, places⟩ := here
  obtain ⟨offsets', valid', places'⟩ := there
  refine ⟨offsets ++ offsets', forall_mem_append.mpr ⟨valid, valid'⟩, fun text => ?_⟩
  simp only [places, places', map_append]

theorem cons {offset : Nat} {places : String → List Position} (valid : IsValid source ⟨offset⟩)
    (there : LooksUp source places) :
    LooksUp source fun text => Position.ofOffset text offset :: places text :=
  append ⟨[offset], forall_mem_singleton.mpr valid, fun _ => rfl⟩ there

theorem ite {α : Type} (f : α → List Position) {p : Prop} [Decidable p] {x y : String → α}
    (here : LooksUp source fun text => f (x text)) (there : LooksUp source fun text => f (y text)) :
    LooksUp source fun text => f (if p then x text else y text) := by
  by_cases holds : p
  · simpa only [if_pos holds]
  · simpa only [if_neg holds]

end LooksUp

/-- The place of the problem that stopped the shortening, if one did. -/
def refusal {α : Type} : Except Minify.Problem α → List Position
  | .error problem => [problem.position]
  | .ok _ => []

theorem refusal_map {α β : Type} (f : α → β) (r : Except Minify.Problem α) :
    refusal (r.map f) = refusal r := by
  cases r <;> rfl

/-- Shortening looks places up where tokens start. -/
theorem looksUp_piecesFrom (valid : ∀ t ∈ ts, IsValid source ⟨t.start⟩) (before : Option Token)
    (apart : Bool) :
    LooksUp source fun text => refusal (Minify.piecesFrom text before apart ts) := by
  induction ts generalizing before apart with
  | nil => exact .nil
  | cons t ts ih =>
    rw [forall_mem_cons] at valid
    unfold Minify.piecesFrom
    cases t.kind with
    | blank | lineComment | blockComment =>
      refine .ite refusal ?_ (ih valid.2 before true)
      simpa only [refusal_map] using ih valid.2 none false
    | fault => exact .cons valid.1 .nil
    | _ => simpa only [refusal_map] using ih valid.2 (some t) false

/-- So does the search for calls. -/
theorem looksUp_callsFrom (valid : ∀ t ∈ ts, IsValid source ⟨t.start⟩) (before : Option Token) :
    LooksUp source fun text => (Require.callsFrom text before ts).map Require.position := by
  induction ts generalizing before with
  | nil => exact .nil
  | cons t ts ih =>
    rw [forall_mem_cons] at valid
    cases ts with
    | nil => exact .nil
    | cons u rest =>
      have later := ih valid.2 (some t)
      refine .ite (List.map Require.position) ?_ later
      cases rest <;> exact .cons valid.1 later

/-- The place that a warning names. -/
def Warning.position? : Warning → Option Position
  | .arrowFunction position | .functionScoped position | .unavailable position _ => some position
  | .duplicateExport _ => none

/-- The places that the diagnostics of an item name. -/
def Item.places (item : Item) : List Position :=
  item.problems.filterMap Problem.position? ++ item.warnings.filterMap Warning.position?

/-- The places that lowering looks up in a text for the tokens of a source: those of brackets and
those of its items. -/
def lookups (options : Options) (source text : String) : List Position :=
  (bracketFaults [] (significant (scan source))).map (fun e => Position.ofOffset text e.1) ++
    (lowerFrom ⟨text, options.target, options.kind == .somon⟩ [] 0
      (Lexeme.splitFrom "" (scan source)).1).flatMap Item.places

section Lowering

variable (target : Target) (inSomon : Bool) (before : List Token) (number : Nat) {l : Lexeme}

theorem looksUp_lowerToken (valid : IsValid source ⟨l.token.start⟩) (next : Option Token) :
    LooksUp source fun text => (lowerToken ⟨text, target, inSomon⟩ before l next).places := by
  have warned (p : Prop) [Decidable p] (w : Position → Warning)
      (shown : ∀ place, (w place).position? = some place) : LooksUp source fun text =>
        (if p then [w (Position.ofOffset text l.token.start)] else []).filterMap
          Warning.position? := by
    refine .ite (List.filterMap _) ?_ .nil
    simpa [shown] using LooksUp.cons valid .nil
  unfold lowerToken
  dsimp only
  cases l.token.kind with
  | identifier name =>
    obtain ⟨written, same⟩ : ∃ written, ∀ text,
        identifierText ⟨text, target, inSomon⟩ before next name = written :=
      ⟨identifierText ⟨"", target, inSomon⟩ before next name, fun _ => rfl⟩
    simp only [Item.places, same, identifierWarnings, filterMap_nil, nil_append]
    refine .ite (List.filterMap _) .nil ?_
    simp only [filterMap_append]
    exact .append (warned _ .functionScoped fun _ => rfl)
      (warned ((target = .es5 && modernWords.contains written) = true) (.unavailable · written)
        fun _ => rfl)
  | punct symbol =>
    exact warned ((symbol = "=>" && target = .es5) = true) .arrowFunction fun _ => rfl
  | fault | stray => exact .cons valid .nil
  | _ => exact .nil

theorem looksUp_lowerFirst (valid : IsValid source ⟨l.token.start⟩) (rest : List Lexeme) :
    LooksUp source fun text =>
      (lowerFirst ⟨text, target, inSomon⟩ before number l rest).item.places := by
  refine .ite (fun step : Step => step.item.places) ?_
    (.ite (fun step : Step => step.item.places) ?_ ?_)
  · unfold lowerImport
    cases Import.parse? (rest.map Lexeme.token) with
    | none => exact .cons valid .nil
    | some => exact .nil
  · unfold lowerExport
    cases Export.parse? rest with
    | none => exact .cons valid .nil
    | some parsed =>
      obtain ⟨value, _⟩ := parsed
      cases value <;> cases rest <;> exact .nil
  · exact looksUp_lowerToken target inSomon before valid _

-- The text shows in the item only: how far the step goes does not depend on it.
/-- What a step takes does not depend on the text. -/
theorem lowerFirst_text (text text' : String) (rest : List Lexeme) (item : Item) :
    { lowerFirst ⟨text, target, inSomon⟩ before number l rest with item } =
      { lowerFirst ⟨text', target, inSomon⟩ before number l rest with item } := by
  unfold lowerFirst lowerImport lowerExport
  split
  · cases Import.parse? (rest.map Lexeme.token) <;> rfl
  split
  · cases Export.parse? rest with
    | none => rfl
    | some parsed =>
      obtain ⟨value, _⟩ := parsed
      cases value <;> cases rest <;> rfl
  · rfl

theorem looksUp_lowerFrom (ls : List Lexeme)
    (valid : ∀ t ∈ ls.map Lexeme.token, IsValid source ⟨t.start⟩) :
    LooksUp source fun text =>
      (lowerFrom ⟨text, target, inSomon⟩ before number ls).flatMap Item.places := by
  fun_induction lowerFrom ⟨source, target, inSomon⟩ before number ls with
  | case1 =>
    simp only [lowerFrom]
    exact .nil
  | case2 before number l rest step before' number' remaining ih =>
    have tokens : remaining.map Lexeme.token = (rest.map Lexeme.token).drop step.size :=
      map_token_remaining step rest
    rw [map_cons, forall_mem_cons] at valid
    have unfolded (text : String) :
        lowerFrom ⟨text, target, inSomon⟩ before number (l :: rest) =
          (lowerFirst ⟨text, target, inSomon⟩ before number l rest).item ::
            lowerFrom ⟨text, target, inSomon⟩ before' number' remaining := by
      have same := lowerFirst_text target inSomon before number text source rest (l := l) step.item
      have size := congrArg Step.size same
      have drops := congrArg Step.dropsLead same
      have shared := congrArg Step.usesShared same
      dsimp only at size drops shared
      rw [lowerFrom, size, drops, shared]
      rfl
    simp only [unfolded, flatMap_cons]
    refine .append (looksUp_lowerFirst target inSomon before number valid.1 rest) (ih ?_)
    rw [tokens]
    exact fun t member => valid.2 t (mem_of_mem_drop member)

end Lowering

/-- Tokens start between characters. -/
theorem starts_scan (source : String) : ∀ t ∈ scan source, IsValid source ⟨t.start⟩ :=
  fun t member => (spans_of_mem_scan source t member).opens

/-- Lowering looks places up where tokens start. -/
theorem looksUp_lookups (options : Options) (source : String) :
    LooksUp source (lookups options source) := by
  refine .append ⟨(bracketFaults [] (significant (scan source))).map Prod.fst, ?_, fun text => ?_⟩
    (looksUp_lowerFrom _ _ _ _ _ ?_)
  · rw [forall_mem_map]
    intro entry fault
    obtain ⟨t, inside, start⟩ := exists_bracket fault
    exact start ▸ starts_scan source t (mem_of_mem_filter inside)
  · rw [map_map]
    rfl
  · rw [Lexeme.token_splitFrom]
    exact fun t member => starts_scan source t (mem_of_mem_filter member)

theorem reported_perm (options : Options) (source : String) :
    ((lowerModule options source).problems.filterMap Problem.position? ++
      (lowerModule options source).warnings.filterMap Warning.position?).Perm
      (lookups options source source) := by
  have warnings : (lowerModule options source).warnings =
      (moduleItems options source).flatMap Item.warnings ++ (if options.typeCheck then [] else
        (splitExports [] ((moduleItems options source).flatMap Item.exports)).2.map
          Warning.duplicateExport) := rfl
  have none (names : List String) :
      (names.map Problem.duplicateExport).filterMap Problem.position? = [] ∧
        (names.map Warning.duplicateExport).filterMap Warning.position? = [] := by
    simp [filterMap_map, Function.comp_def, Problem.position?, Warning.position?]
  rw [problems_lowerModule, warnings]
  simp only [filterMap_append, filterMap_map, apply_ite (List.filterMap _), none,
    filterMap_nil, ite_self, append_nil, append_assoc, filterMap_flatMap]
  exact .append (.of_eq (congrFun filterMap_eq_map _)) (flatMap_append_perm ..)

/-- **Positions are faithful.** Of two offsets between characters of a source the later one has the
later position, a position belongs to one such offset only, and lines and columns count from one. An
offset is known by its places in all texts. All offsets at which shortening, the search for calls
and lowering look places up lie between characters of the source that they go through, and the
places that lowering reports are those that it looks up. -/
theorem positions_faithful (source : String) :
    (∀ a b, IsValid source ⟨a⟩ → IsValid source ⟨b⟩ →
      (a < b → Position.ofOffset source a < Position.ofOffset source b) ∧
      (Position.ofOffset source a = Position.ofOffset source b → a = b)) ∧
    (∀ offset, 1 ≤ (Position.ofOffset source offset).line ∧
      1 ≤ (Position.ofOffset source offset).column) ∧
    (∀ a b, (∀ text, Position.ofOffset text a = Position.ofOffset text b) → a = b) ∧
    LooksUp source (fun text => refusal (Minify.piecesFrom text none false (scan source))) ∧
    LooksUp source (fun text =>
      (Require.callsFrom text none (significant (scan source))).map Require.position) ∧
    ∀ options, LooksUp source (lookups options source) ∧
      ((lowerModule options source).problems.filterMap Problem.position? ++
        (lowerModule options source).warnings.filterMap Warning.position?).Perm
        (lookups options source source) := by
  refine ⟨?_, ?_, ?_, ?_, ?_, ?_⟩
  · intro a b first second
    exact ⟨Position.ofOffset_lt first second, Position.eq_of_ofOffset_eq first second⟩
  · intro offset
    exact Position.one_le_foldl_step _ ⟨Nat.le_refl 1, Nat.le_refl 1⟩
  · intro a b same
    exact Position.eq_of_forall_ofOffset_eq same
  · exact looksUp_piecesFrom (starts_scan source) none false
  · refine looksUp_callsFrom ?_ none
    exact fun t member => starts_scan source t (mem_of_mem_filter member)
  · intro options
    exact ⟨looksUp_lookups options source, reported_perm options source⟩

/-- Letters of two bytes on two lines, and a string that is not closed. -/
theorem positions_faithful_cyrillic :
    let source := "ё\nя = 'ё"
    (IsValid source ⟨3⟩ ∧ IsValid source ⟨8⟩ ∧ Position.ofOffset source 3 = ⟨2, 1⟩ ∧
      Position.ofOffset source 8 = ⟨2, 5⟩ ∧
      refusal (Minify.piecesFrom source none false (scan source)) = [⟨2, 5⟩]) ∧
    Position.ofOffset source 3 < Position.ofOffset source 8 ∧
    LooksUp source fun text => refusal (Minify.piecesFrom text none false (scan source)) := by
  intro source
  have computed : IsValid source ⟨3⟩ ∧ IsValid source ⟨8⟩ ∧
      Position.ofOffset source 3 = ⟨2, 1⟩ ∧ Position.ofOffset source 8 = ⟨2, 5⟩ ∧
      refusal (Minify.piecesFrom source none false (scan source)) = [⟨2, 5⟩] := by
    decide +kernel
  obtain ⟨ordered, _, _, shortening, _⟩ := positions_faithful source
  exact ⟨computed, (ordered 3 8 computed.1 computed.2.1).1 (by decide), shortening⟩

end Tarkib.Compile
