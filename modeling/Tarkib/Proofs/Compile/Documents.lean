import Tarkib.Compile.Basic
import Tarkib.Proofs.Bundle.Words
import Tarkib.Proofs.Json.Tokens
import Tarkib.Require

/-!
# Modules that are documents

A document is compiled to code that exports it. The code is a name, a sign and the words of the
document up to the mark that ends the statement (`IsExport`). Shortening takes out the blank space
around the sign. In the document it can take out or add blank space between words only.
-/

namespace Tarkib

open Tarkib.Token Tarkib.Text
open List hiding concat

/-! ## Codes without calls -/

namespace Require

theorem callsFrom_eq_nil {tokens : List Token} (none : ∀ t ∈ tokens, t.kind ≠ .identifier "require")
    (source : String) (before : Option Token) : callsFrom source before tokens = [] := by
  fun_induction callsFrom source before tokens with
  | case1 => rfl
  | case2 => rfl
  | case3 before t u rest later called ih =>
    have word : t.isWord ["require"] = true := by
      simp only [Bool.and_eq_true] at called
      exact called.1.1
    have other := none t mem_cons_self
    unfold isWord at word
    split at word
    · next name kind =>
        obtain rfl : name = "require" := by simpa using word
        exact absurd kind other
    · cases word
  | case4 before t u rest later uncalled ih => exact ih (forall_mem_cons.mp none).2

end Require

namespace Compile

open Tarkib.Json (Calm Scans Scanned Lays Denotes)

/-! ## The tokens of an exported document -/

def target : String :=
  "module.exports"

def exported (gap text : String) : String :=
  target ++ gap ++ "=" ++ text ++ ";"

/-- The tokens of code that exports a text with the given words. -/
inductive IsExport (gap : List Char) (ws : List (List Char)) : List Token → Prop where
  | intro {front gaps ts : List Token} {sign stop : Token} (calm : ∀ t ∈ front, Calm t)
      (spelled : (concat front).toList = target.toList)
      (blank : ∀ t ∈ gaps, t.kind = .blank) (between : (concat gaps).toList = gap)
      (sets : sign.kind = .punct "=" ∧ sign.text = "=") (scanned : Scanned ws ts)
      (ends : stop.kind = .punct ";" ∧ stop.text = ";") :
      IsExport gap ws (front ++ (gaps ++ sign :: (ts ++ [stop])))

variable {rest gap : List Char} {v : Json.Value} {ws : List (List Char)} {source : String}

theorem scans_target (ends : rest.head?.any isIdentifierPart = false) :
    Scans target.toList rest := by
  have names : isName "module" = true ∧ isName "exports" = true := by decide
  have noLetter : isIdentifierPart '.' = false := by decide +kernel
  have alone : isAlone (fun c => c == 'e') '.' = true := by decide
  have property : Scans "exports".toList rest := Json.scans_name names.2 (by decide) ends
  have point : Scans ['.'] ("exports".toList ++ rest) :=
    Json.scans_of_read (fun _ => read_alone alone rfl fun _ => rfl) rfl (by simp)
  have name : Scans "module".toList (['.'] ++ "exports".toList ++ rest) :=
    Json.scans_name names.1 (by decide) (by simp [noLetter])
  exact name.append (point.append property)

theorem ends_target (blank : ∀ c ∈ gap, Json.Cursor.isBlank c = true) (rest : List Char) :
    (gap ++ '=' :: rest).head?.any isIdentifierPart = false := by
  have noLetter : isIdentifierPart '=' = false := by decide +kernel
  cases gap with
  | nil => simp [noLetter]
  | cons b gap =>
    have other := Json.all_of_isBlank (p := fun c => !isIdentifierPart c) (by decide +kernel)
      (blank b mem_cons_self)
    simpa using other

theorem exists_head? {cs : List Char} (denotes : Denotes Json.depthLimit (.value v) ws)
    (laid : Lays ws cs rest) :
    ∃ c ∈ cs.head?, (Json.Cursor.isBlank c || Json.startsValue c) = true := by
  obtain ⟨c, word, us, rfl, starts⟩ := denotes.exists_start
  cases laid with
  | @cons gap _ _ cs _ blank _ =>
    cases gap with
    | nil => exact ⟨c, rfl, by rw [starts, Bool.or_true]⟩
    | cons b gap => exact ⟨b, rfl, by rw [blank b mem_cons_self, Bool.true_or]⟩

/-- The code of a document is read as the sign and the words of the document. -/
theorem isExport_scan {gap text : String} (blank : ∀ c ∈ gap.toList, Json.Cursor.isBlank c = true)
    (denotes : Denotes Json.depthLimit (.value v) ws) (laid : Lays ws text.toList []) :
    IsExport gap.toList ws (scan (exported gap text)) := by
  have whole : (exported gap text).toList =
      target.toList ++ (gap.toList ++ '=' :: (text.toList ++ [';'])) := by
    simp [exported]
  have next : (text.toList ++ [';']).head?.all
      (fun c => Json.Cursor.isBlank c || Json.startsValue c) = true := by
    obtain ⟨c, first, starts⟩ := exists_head? denotes laid
    rw [head?_append, Option.mem_def.mp first]
    exact starts
  have alone : isAlone (fun c => Json.Cursor.isBlank c || Json.startsValue c) '=' = true := by
    decide
  have divided : Json.Divided [';'] := by
    intro c first
    cases first
    decide
  have closes (operand : Bool) : read operand ';' ([] ++ []) = ⟨.punct ";", 0⟩ :=
    read_alone (p := fun _ => true) (by decide) rfl (by simp)
  obtain ⟨front, operand, start, scanned, calm, spelled⟩ :=
    scans_target (ends_target blank _) true 0
  obtain ⟨gaps, start₁, scanned₁, blanks, between⟩ :=
    Json.scanFrom_gap blank (c := '=') (by decide) operand start (text.toList ++ [';'])
  have sign : read operand '=' ([] ++ (text.toList ++ [';'])) = ⟨.punct "=", 0⟩ :=
    read_alone alone next (by simp)
  have scanned₂ := scanFrom_of_read sign start₁
  obtain ⟨ts, operand₃, start₃, scanned₃, words⟩ :=
    denotes.scansTo _ _ (laid.append_right [';']) divided
      (if (Kind.punct "=").isSignificant then (Kind.punct "=").precedesExpression else operand)
      (start₁ + (String.ofList ['=']).utf8ByteSize)
  have scanned₄ := scanFrom_of_read (closes operand₃) start₃
  simp only [singleton_append, append_nil] at scanned₂ scanned₄
  rw [scan, whole, scanned, scanned₁, scanned₂, scanned₃, nil_append, scanned₄, scanFrom]
  exact .intro calm spelled blanks between ⟨rfl, rfl⟩ words ⟨rfl, rfl⟩

theorem IsExport.forall {tokens : List Token} (exports : IsExport gap ws tokens) :
    ∀ t ∈ tokens, t.kind = .blank ∨ Calm t := by
  cases exports with
  | intro calm spelled blank between sets scanned ends =>
    simp only [forall_mem_append, forall_mem_cons]
    refine ⟨fun t member => .inr (calm t member), fun t member => .inl (blank t member), ?_,
      scanned.forall, ?_, by simp⟩
    · exact .inr ⟨by rw [sets.1]; rfl, by simp [sets.1]⟩
    · exact .inr ⟨by rw [ends.1]; rfl, by simp [ends.1]⟩

/-- Nothing in it calls for a module. -/
theorem calls_of_isExport (exports : IsExport gap ws (scan source)) :
    Require.calls source = [] := by
  refine Require.callsFrom_eq_nil (fun t member => ?_) source none
  rcases exports.forall t (mem_filter.mp member).1 with blank | calm
  · simp [blank]
  · exact calm.noRequire

/-! ## Shortening -/

theorem exists_pieces_of_mark {before : Option Token} {apart : Bool} {t : Token} {ts : List Token}
    {pieces : List Minify.Piece} (mark : t.text = "=" ∨ t.text = ";")
    (readable : t.kind.isReadable = true)
    (shortened : Minify.piecesFrom source before apart (t :: ts) = .ok pieces) :
    ∃ behind, Minify.piecesFrom source (some t) false ts = .ok behind ∧
      Minify.textOf pieces = t.text.toList ++ Minify.textOf behind := by
  have tight (b : Token) : Minify.needsSpace b t = false := by
    unfold Minify.needsSpace
    cases b.text.toList.getLast? with
    | none => rfl
    | some last => rcases mark with text | text <;> simp [text, Minify.isWordChar]
  obtain ⟨behind, space, further, text, _, none⟩ := Json.exists_pieces_of_kept readable shortened
  refine ⟨behind, further, ?_⟩
  rw [text, none (by cases before <;> simp [tight]), nil_append]

/-- Shortened, it still is such a code of the same words. -/
theorem exists_minify_of_isExport (exports : IsExport gap ws (scan source)) (plain : '\n' ∉ gap) :
    ∃ text, Minify.minify source = .ok (exported "" text) ∧ Lays ws text.toList [] := by
  have ends : ∀ t ∈ scan source, t.kind.isFault = false := by
    intro t member
    rcases exports.forall t member with blank | calm
    · rw [blank]
      rfl
    · have readable := calm.readable
      cases kind : t.kind with
      | fault => rw [kind] at readable; cases readable
      | _ => rfl
  obtain ⟨pieces, made⟩ := Minify.exists_pieces ends source none false
  have shortened : Minify.minify source = .ok (String.ofList (Minify.textOf pieces)) := by
    rw [Minify.minify, made, Minify.textOf, String.ofList_toList]
    rfl
  generalize scan source = tokens at exports made
  cases exports with
  | intro calm spelled blank between sets scanned stops =>
    obtain ⟨_, _, further, object⟩ := Json.exists_pieces_of_calm calm made
    obtain ⟨before, apart, _, feeds, further, between', none⟩ :=
      Json.exists_pieces_of_blank blank further
    have noFeeds : feeds = [] := by
      refine eq_nil_iff_forall_not_mem.mpr fun c member => ?_
      obtain ⟨rfl, inside⟩ := none c member
      exact plain (between ▸ inside)
    obtain ⟨_, further, sign⟩ :=
      exists_pieces_of_mark (.inl sets.2) (by rw [sets.1]; rfl) further
    obtain ⟨_, _, _, further, laid⟩ := scanned.lays further
    obtain ⟨_, further, stop⟩ :=
      exists_pieces_of_mark (.inr stops.2) (by rw [stops.1]; rfl) further
    cases further
    obtain ⟨text, whole, laid⟩ := laid.exists_front
    refine ⟨String.ofList text, ?_, by rwa [String.toList_ofList]⟩
    rw [shortened, object, between', noFeeds, sign, whole, stop, spelled, sets.2, stops.2,
      Minify.textOf_nil]
    refine congrArg Except.ok (String.toList_inj.mp ?_)
    simp [exported]

/-! ## Compiled documents -/

theorem exists_compile_document {options : Options} (document : options.kind = .json)
    (denotes : Denotes Json.depthLimit (.value v) ws) (laid : Lays ws source.toList rest)
    (blank : ∀ c ∈ rest, Json.Cursor.isBlank c = true) :
    ∃ text, compile options source =
        ⟨exported (if options.minify then "" else " ") text, [], []⟩ ∧ Lays ws text.toList [] := by
  have parsed : Json.parse source = .ok v :=
    Json.parse_eq_ok_iff.mpr ⟨ws, rest, denotes, laid, blank⟩
  have front : "module.exports = " = "module.exports" ++ " " ++ "=" ++ " " := rfl
  have generated : generate options source = ⟨exported " " (" " ++ trim source), [], []⟩ := by
    simp only [generate, document, compileJson, parsed]
    change (⟨"module.exports = " ++ trim source ++ ";", [], []⟩ : Output) = _
    simp only [front, target, exported, String.append_assoc]
  have trimmed : Lays ws (" " ++ trim source).toList [] := by
    rw [String.toList_append]
    exact (laid.trim denotes.ne_nil denotes.solid blank).cons_blank denotes.ne_nil rfl
  cases minify : options.minify with
  | false =>
    refine ⟨" " ++ trim source, ?_, trimmed⟩
    simp only [compile, generated, minify, Bool.false_eq_true, if_false]
  | true =>
    have exports : IsExport " ".toList ws (scan (exported " " (" " ++ trim source))) :=
      isExport_scan (all_eq_true.mp rfl) denotes trimmed
    obtain ⟨text, shortened, laid⟩ := exists_minify_of_isExport exports (by decide)
    refine ⟨text, ?_, laid⟩
    simp only [compile, generated, minify, if_true, shorten, Output.isUsable, isEmpty_nil,
      shortened]

/-- **Documents keep their value.** A text that is read as a value is compiled without problems and
warnings to code without calls. Behind the sign and up to the mark that ends the statement stands a
text that is read as the same value, also if the code is shortened. -/
theorem document_keeps_value {options : Options} {source : String} {v : Json.Value}
    (document : options.kind = .json) (parsed : Json.parse source = .ok v) :
    (compile options source).problems = [] ∧ (compile options source).warnings = [] ∧
      Require.calls (compile options source).code = [] ∧
      ∃ text, (compile options source).code =
          "module.exports" ++ (if options.minify then "" else " ") ++ "=" ++ text ++ ";" ∧
        Json.parse text = .ok v := by
  obtain ⟨ws, rest, denotes, laid, blank⟩ := Json.parse_eq_ok_iff.mp parsed
  obtain ⟨text, compiled, laid⟩ := exists_compile_document document denotes laid blank
  have gap : ∀ c ∈ (if options.minify then "" else " " : String).toList,
      Json.Cursor.isBlank c = true :=
    all_eq_true.mp (by cases options.minify <;> rfl)
  have calls := calls_of_isExport (isExport_scan gap denotes laid)
  rw [compiled]
  exact ⟨rfl, rfl, calls, text, by rw [exported, target],
    Json.parse_eq_ok_iff.mpr ⟨ws, [], denotes, laid, by simp⟩⟩

/-- A document with a negative number, and with marks of a comment inside a string. -/
theorem document_keeps_value_shortened :
    ∃ v text, Json.parse " [-1, \"//\\n\", \x7b\"a\": null\x7d]\n" = .ok v ∧
      (compile { kind := .json, minify := true }
        " [-1, \"//\\n\", \x7b\"a\": null\x7d]\n").code =
          "module.exports" ++ "" ++ "=" ++ text ++ ";" ∧ Json.parse text = .ok v := by
  have parsed : Json.parse " [-1, \"//\\n\", \x7b\"a\": null\x7d]\n" =
      .ok (.array [.number (.negative 1), .string "//\n", .object [("a", .null)]]) := by
    have length : " [-1, \"//\\n\", \x7b\"a\": null\x7d]\n".length = 27 := by decide
    simp [Json.parse, length, Json.readValue, Json.readItems, Json.readMembers,
      Json.readMember, Json.readString, Json.readChars, Json.readColon, Json.readWord,
      Json.readNumber, Json.appendDigits, Json.digitValue, Json.overflows, Json.atExponent,
      Json.shortEscape?, Json.Cursor.skipBlank, Json.Cursor.next, Json.Cursor.isBlank,
      Json.Cursor.digits, Json.Cursor.skipDigits, Json.Value.ofMembers, Json.insertMember,
      Json.depthLimit, bind, Except.bind, pure, Except.pure]
  obtain ⟨_, _, _, text, code, value⟩ :=
    @document_keeps_value { kind := .json, minify := true } _ _ rfl parsed
  exact ⟨_, text, parsed, code, value⟩

end Compile

end Tarkib
