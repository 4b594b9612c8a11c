import Tarkib.Proofs.Compile.Clauses
import Tarkib.Proofs.Token.Scan

/-!
# Line feeds in declarations

A declaration of imports or exports consists of names, operators and at most one literal, which
names a module. Only the literal can reach over several lines, and the text that takes the place of
the declaration holds it once, as it is written, and names besides.
-/

namespace Tarkib.Compile

open Tarkib.Text Tarkib.Token List

variable {ts : List Token} {parsed : Parsed Import} {name : String}

/-! ## Line feeds inside tokens -/

/-- The number of line feeds inside the tokens. -/
def innerFeeds (ts : List Token) : Nat :=
  (ts.map fun t => lineFeedCount t.text).sum

@[simp]
theorem innerFeeds_nil : innerFeeds [] = 0 := rfl

@[simp]
theorem innerFeeds_cons (t : Token) (ts : List Token) :
    innerFeeds (t :: ts) = lineFeedCount t.text + innerFeeds ts := by
  simp [innerFeeds]

@[simp]
theorem innerFeeds_append (ts us : List Token) :
    innerFeeds (ts ++ us) = innerFeeds ts + innerFeeds us := by
  simp [innerFeeds]

theorem innerFeeds_eq_zero_iff : innerFeeds ts = 0 ↔ ∀ t ∈ ts, lineFeedCount t.text = 0 := by
  induction ts with
  | nil => simp
  | cons t ts ih => simp [ih]

/-- The text has the line feeds inside the tokens, and of these only strings have any. -/
structure StandsFor (text : String) (ts : List Token) : Prop where
  feeds : lineFeedCount text = innerFeeds ts
  strings : ∀ t ∈ ts, lineFeedCount t.text ≠ 0 → ∃ value, t.kind = .string value

namespace StandsFor

variable {text : String} {us : List Token}

theorem of_plain (written : lineFeedCount text = 0) (plain : innerFeeds ts = 0) :
    StandsFor text ts where
  feeds := written.trans plain.symm
  strings t member feeds := absurd (innerFeeds_eq_zero_iff.mp plain t member) feeds

theorem congr {text' : String} (same : lineFeedCount text' = lineFeedCount text)
    (stands : StandsFor text ts) : StandsFor text' ts :=
  ⟨same.trans stands.feeds, stands.strings⟩

theorem append_left (plain : innerFeeds ts = 0) (stands : StandsFor text us) :
    StandsFor text (ts ++ us) where
  feeds := by rw [innerFeeds_append, plain, Nat.zero_add, stands.feeds]
  strings t member feeds := by
    rcases mem_append.mp member with member | member
    · exact absurd (innerFeeds_eq_zero_iff.mp plain t member) feeds
    · exact stands.strings t member feeds

theorem append_right (stands : StandsFor text ts) (plain : innerFeeds us = 0) :
    StandsFor text (ts ++ us) where
  feeds := by rw [innerFeeds_append, plain, Nat.add_zero, stands.feeds]
  strings t member feeds := by
    rcases mem_append.mp member with member | member
    · exact stands.strings t member feeds
    · exact absurd (innerFeeds_eq_zero_iff.mp plain t member) feeds

end StandsFor

/-- Tokens as they come from a source: names and operators stay on one line. -/
def Regular (ts : List Token) : Prop :=
  ∀ t ∈ ts, StaysOnLine t.kind t.text

theorem Regular.tail {t : Token} (regular : Regular (t :: ts)) : Regular ts :=
  fun u member => regular u (mem_cons_of_mem _ member)

theorem Regular.drop (regular : Regular ts) (n : Nat) : Regular (ts.drop n) :=
  fun u member => regular u (mem_of_mem_drop member)

theorem Regular.take (regular : Regular ts) (n : Nat) : Regular (ts.take n) :=
  fun u member => regular u (mem_of_mem_take member)

/-! ## Clauses -/

section Clauses

variable {t : Token} {names : List String} {text : String}

theorem lineFeedCount_of_name (regular : StaysOnLine t.kind t.text) (named : t.name? = some name) :
    lineFeedCount name = 0 := by
  unfold name? at named
  split at named
  · next kind =>
      rw [kind] at regular
      cases named
      exact regular.2
  · cases named

theorem lineFeedCount_of_isClausal (regular : StaysOnLine t.kind t.text)
    (clausal : isClausal t.kind = true) : lineFeedCount t.text = 0 := by
  cases kind : t.kind with
  | identifier name =>
    rw [kind] at regular
    exact regular.1
  | punct symbol =>
    rw [kind] at regular
    exact regular
  | _ =>
    rw [kind] at clausal
    cases clausal

theorem lineFeedCount_of_isWord (regular : StaysOnLine t.kind t.text)
    (word : t.isWord names = true) : lineFeedCount t.text = 0 :=
  lineFeedCount_of_isClausal regular ((Clause.of_isWord word).clausal t mem_cons_self)

/-- Names and delimiters stay on their lines. -/
theorem Clause.innerFeeds_eq_zero (clause : Clause ts names) (regular : Regular ts) :
    innerFeeds ts = 0 :=
  innerFeeds_eq_zero_iff.mpr fun t member =>
    lineFeedCount_of_isClausal (regular t member) (clause.clausal t member)

theorem Clause.lineFeedCount_eq_zero (clause : Clause ts names) (regular : Regular ts) :
    ∀ name ∈ names, lineFeedCount name = 0 := by
  intro name member
  rcases clause.known name member with rfl | ⟨t, inside, named⟩
  · rfl
  · exact lineFeedCount_of_name (regular t inside) named

theorem Source.standsFor (source : Source ts text) (regular : Regular ts) :
    StandsFor text ts := by
  obtain ⟨front, literal, rest, rfl, clause, ⟨value, kind⟩, rfl, semicolon⟩ := source.shape
  obtain ⟨first, later⟩ := forall_mem_append.mp regular
  have behind := semicolon.clause.innerFeeds_eq_zero (forall_mem_cons.mp later).2
  have alone : StandsFor literal.text [literal] := ⟨by simp, by simp [kind]⟩
  exact .append_left (clause.innerFeeds_eq_zero first) (alone.append_right behind)

end Clauses

/-- A binding whose names stay on one line. -/
def Binding.StaysOnLine (b : Binding) : Prop :=
  lineFeedCount b.outer = 0 ∧ lineFeedCount b.inner = 0

theorem staysOnLine_of_bound {bs : List Binding}
    (plain : ∀ name ∈ bound bs, lineFeedCount name = 0) : ∀ b ∈ bs, b.StaysOnLine := by
  intro b member
  have listed (name : String) (named : name ∈ [b.outer, b.inner]) : lineFeedCount name = 0 :=
    plain name (mem_flatMap.mpr ⟨b, member, named⟩)
  exact ⟨listed _ (by simp), listed _ (by simp)⟩

/-! ## Imports -/

namespace Import

/-- An import whose names stay on one line. The literal may not. -/
structure StaysOnLine (d : Import) : Prop where
  main : ∀ name ∈ d.main?, lineFeedCount name = 0
  whole : ∀ name ∈ d.whole?, lineFeedCount name = 0
  names : ∀ b ∈ d.names, b.StaysOnLine

theorem standsFor_parse (regular : Regular ts) (import_ : parse? ts = some parsed) :
    StandsFor parsed.value.source (ts.take parsed.size) ∧ parsed.value.StaysOnLine := by
  obtain ⟨front, rest, same, clause, source⟩ := made_of_parse import_
  have taken := regular.take parsed.size
  rw [same] at taken ⊢
  obtain ⟨first, later⟩ := forall_mem_append.mp taken
  have plain := clause.lineFeedCount_eq_zero first
  simp only [bound, forall_mem_append, Option.mem_toList] at plain
  exact ⟨.append_left (clause.innerFeeds_eq_zero first) (source.standsFor later), plain.1,
    plain.2.1, staysOnLine_of_bound plain.2.2⟩

theorem lineFeedCount_field {b : Binding} (stays : b.StaysOnLine) :
    lineFeedCount (field b) = 0 := by
  unfold field
  split
  · exact stays.2
  · simp (disch := decide) [lineFeedCount_of_notMem, stays.1, stays.2]

section Statements

variable {d : Import} (stays : d.StaysOnLine) (value : String)
include stays

theorem lineFeedCount_whole :
    ((d.whole?.toList.map fun name => s!"const {name} = {value};").map lineFeedCount).sum =
      d.whole?.toList.length * lineFeedCount value := by
  cases whole : d.whole? with
  | none => simp
  | some name =>
    have plain := stays.whole name whole
    simp (disch := decide) [lineFeedCount_of_notMem, plain]

theorem lineFeedCount_main :
    ((d.main?.toList.map fun name => s!"const {name} = {defaultOf}({value});").map
      lineFeedCount).sum = d.main?.toList.length * lineFeedCount value := by
  cases main : d.main? with
  | none => simp
  | some name =>
    have plain := stays.main name main
    simp (disch := decide) [lineFeedCount_of_notMem, plain]

omit stays in
theorem lineFeedCount_names {names : String} (plain : lineFeedCount names = 0) :
    ((if d.names.isEmpty then [] else [s!"const \x7b {names} \x7d = {value};"]).map
      lineFeedCount).sum = (if d.names.isEmpty then 0 else 1) * lineFeedCount value := by
  split
  · simp
  · simp (disch := decide) [lineFeedCount_of_notMem, plain]

/-- The text of an import has the line feeds of its literal. -/
theorem lineFeedCount_lower (number : Nat) :
    lineFeedCount (d.lower number) = lineFeedCount d.source := by
  have call : lineFeedCount s!"require({d.source})" = lineFeedCount d.source := by
    simp (disch := decide) [lineFeedCount_of_notMem]
  have listed : lineFeedCount (String.intercalate ", " (d.names.map field)) = 0 := by
    rw [lineFeedCount_intercalate rfl, sum_eq_zero]
    simp only [map_map, mem_map]
    rintro _ ⟨b, member, rfl⟩
    exact lineFeedCount_field (stays.names b member)
  unfold lower
  dsimp only
  split
  · rw [lineFeedCount_append, call]
    rfl
  · next some =>
      rw [lineFeedCount_intercalate rfl]
      simp only [map_append, sum_append]
      rw [lineFeedCount_whole stays, lineFeedCount_main stays, lineFeedCount_names _ listed]
      -- The literal stands in the declaration of the variable, or else in the only statement.
      by_cases shared : d.isShared
      · have variable_ : lineFeedCount s!"__somon_import_{number}" = 0 := by
          simp (disch := decide) [lineFeedCount_of_notMem]
        simp only [shared, if_true, variable_, Nat.mul_zero, Nat.add_zero]
        simp (disch := decide) [lineFeedCount_of_notMem]
      · have one : d.bindingCount = 1 := by
          simp only [isShared, decide_eq_true_eq] at shared
          omega
        unfold bindingCount at one
        simp only [shared, if_false, Bool.false_eq_true, call, map_nil, sum_nil,
          ← Nat.add_mul, Nat.zero_add]
        rw [Nat.add_comm d.whole?.toList.length, one, Nat.one_mul]

end Statements

end Import

/-- The text of an import has the line feeds inside its tokens. -/
theorem standsFor_lower_import (regular : Regular ts) (import_ : Import.parse? ts = some parsed)
    (number : Nat) : StandsFor (parsed.value.lower number) (ts.take parsed.size) := by
  obtain ⟨literal, stays⟩ := Import.standsFor_parse regular import_
  exact literal.congr (Import.lineFeedCount_lower stays number)

/-! ## Exports -/

namespace Export

theorem lineFeedCount_listedFrom {names : List Binding} (stays : ∀ b ∈ names, b.StaysOnLine)
    (source : String) : lineFeedCount (listedFrom names source).lower = lineFeedCount source := by
  have body : lineFeedCount (String.intercalate " "
      (names.map fun b => s!"exports.{b.outer} = m.{b.inner};")) = 0 := by
    rw [lineFeedCount_intercalate rfl, sum_eq_zero]
    simp only [map_map, mem_map]
    rintro _ ⟨b, member, rfl⟩
    have plain := stays b member
    simp (disch := decide) [lineFeedCount_of_notMem, plain.1, plain.2]
  unfold lower
  simp (disch := decide) only [lineFeedCount_append, lineFeedCount_toString, body,
    lineFeedCount_of_notMem, Nat.add_zero, Nat.zero_add]

theorem lineFeedCount_all (source : String) :
    lineFeedCount (all source).lower = lineFeedCount source := by
  unfold lower
  simp (disch := decide) only [lineFeedCount_append, lineFeedCount_toString,
    lineFeedCount_of_notMem, Nat.add_zero, Nat.zero_add]

theorem lineFeedCount_allAs (plain : lineFeedCount name = 0) (source : String) :
    lineFeedCount (allAs name source).lower = lineFeedCount source := by
  unfold lower
  simp (disch := decide) only [lineFeedCount_append, lineFeedCount_toString, plain,
    lineFeedCount_of_notMem, Nat.add_zero, Nat.zero_add]

end Export

/-- So has the text of an export. -/
theorem standsFor_lower_export {ls : List Lexeme} (regular : Regular (ls.map Lexeme.token))
    {parsed : Parsed Export} (export_ : Export.parse? ls = some parsed) :
    StandsFor parsed.value.lower ((ls.take parsed.size).map Lexeme.token) := by
  have taken := regular.take parsed.size
  rw [← map_take] at taken
  have made := Export.made_of_parse export_
  generalize parsed.value = e, (ls.take parsed.size).map Lexeme.token = ts at made taken ⊢
  cases made with
  | default word =>
    exact .of_plain rfl ((Clause.of_isWord word).innerFeeds_eq_zero taken)
  | declared names => exact .of_plain rfl rfl
  | listed clause closes semicolon =>
    have whole := clause.append ((Clause.of_isPunct closes rfl).append semicolon.clause)
    exact .of_plain rfl (whole.innerFeeds_eq_zero taken)
  | listedFrom clause source =>
    obtain ⟨first, later⟩ := forall_mem_append.mp taken
    have stays := staysOnLine_of_bound (clause.lineFeedCount_eq_zero first)
    exact .append_left (clause.innerFeeds_eq_zero first)
      ((source.standsFor later).congr (Export.lineFeedCount_listedFrom stays _))
  | all clause source =>
    obtain ⟨first, later⟩ := forall_mem_append.mp taken
    exact .append_left (clause.innerFeeds_eq_zero first)
      ((source.standsFor later).congr (Export.lineFeedCount_all _))
  | allAs clause source =>
    obtain ⟨first, later⟩ := forall_mem_append.mp taken
    have plain := clause.lineFeedCount_eq_zero first _ mem_cons_self
    exact .append_left (clause.innerFeeds_eq_zero first)
      ((source.standsFor later).congr (Export.lineFeedCount_allAs plain _))

end Tarkib.Compile
