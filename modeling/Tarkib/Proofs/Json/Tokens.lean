import Tarkib.Proofs.Json.Grammar
import Tarkib.Proofs.Minify.Words
import Tarkib.Proofs.Token.Lines
import Tarkib.Proofs.Token.Renaming

/-!
# Documents as code

Every word of a document is also read as code: brackets, strings and literals as one token each, and
a number with a minus as two tokens. Only the blank space in front of a word can change when code is
shortened: a space is never put inside a word, because the two tokens of a number have nothing
between them.
-/

namespace Tarkib.Json

open Tarkib.Token Tarkib.Text Tarkib.Minify
open List hiding concat concat_append concat_cons

variable {ws : List (List Char)} {cs rest gap : List Char} {c : Char} {phrase : Phrase}
  {depth : Nat}

/-! ## One word -/

/-- A token that can be read and is not the word that calls for a module. -/
structure Calm (t : Token) : Prop where
  readable : t.kind.isReadable = true
  noRequire : t.kind ≠ .identifier "require"

/-- The word is scanned in front of `rest` as calm tokens. -/
def Scans (word rest : List Char) : Prop :=
  ∀ operand start, ∃ ts operand' start',
    scanFrom operand start (word ++ rest) = ts ++ scanFrom operand' start' rest ∧
      (∀ t ∈ ts, Calm t) ∧ (concat ts).toList = word

/-- A word that is read as one token is scanned as this token. -/
theorem scans_of_read {body rest : List Char} {kind : Kind}
    (found : ∀ operand, Token.read operand c (body ++ rest) = ⟨kind, body.length⟩)
    (readable : kind.isReadable = true) (noRequire : kind ≠ .identifier "require") :
    Scans (c :: body) rest := by
  intro operand start
  refine ⟨[⟨kind, String.ofList (c :: body), start⟩], _, _, scanFrom_of_read (found operand) start,
    ?_, ?_⟩
  · exact forall_mem_singleton.mpr ⟨readable, noRequire⟩
  · simp [concat]

theorem Scans.append {first second rest : List Char} (here : Scans first (second ++ rest))
    (later : Scans second rest) : Scans (first ++ second) rest := by
  intro operand start
  obtain ⟨ts, operand', start', scanned, calm, spelled⟩ := here operand start
  obtain ⟨us, operand'', start'', scanned', calm', spelled'⟩ := later operand' start'
  refine ⟨ts ++ us, operand'', start'', ?_, forall_mem_append.mpr ⟨calm, calm'⟩, ?_⟩
  · rw [append_assoc, scanned, scanned', append_assoc]
  · rw [concat_append, String.toList_append, spelled, spelled']

theorem Scans.noSpace {body rest : List Char} (scans : Scans (c :: body) rest) :
    isSpace c = false := by
  obtain ⟨ts, operand, start, scanned, calm, spelled⟩ := scans true 0
  cases ts with
  | nil => cases spelled
  | cons t ts =>
    have readable := (forall_mem_cons.mp calm).1.readable
    rw [cons_append, scanFrom] at scanned
    rw [← (List.cons.inj scanned).1] at readable
    exact noSpace_of_readable readable

def marks : List Char :=
  ['[', ']', '\x7b', '\x7d', ',', ':', ';']

theorem scans_mark (mark : c ∈ marks) (rest : List Char) : Scans [c] rest := by
  have checked : marks.all (fun c => isAlone (fun _ => true) c && c != '.') = true := by
    decide
  have here := all_eq_true.mp checked c mark
  rw [Bool.and_eq_true, bne_iff_ne] at here
  have next : rest.head?.all (fun _ => true) = true := by cases rest <;> rfl
  exact scans_of_read (fun _ => read_alone here.1 next (absurd · here.2)) rfl (by simp)

theorem scans_quotation {text s : List Char} (inside : Inside text s) (rest : List Char) :
    Scans (quotation text) rest := by
  obtain ⟨value, readAs⟩ := inside.exists_read
  refine scans_of_read (fun operand => ?_) rfl (by simp : Kind.string value ≠ _)
  rw [append_assoc, singleton_append, readAs, length_append]
  rfl

theorem scans_name {name : String} (isName : isName name = true) (other : name ≠ "require")
    {rest : List Char} (ends : rest.head?.any isIdentifierPart = false) :
    Scans name.toList rest := by
  obtain ⟨c, body, rfl, _, readAs⟩ := read_of_isName isName
  rw [String.toList_ofList]
  exact scans_of_read (fun operand => readAs operand rest ends) rfl (by simpa using other)

theorem scans_literal {word : List Char} {v : Value} (known : (word, v) ∈ literals)
    {rest : List Char} (divided : Divided rest) : Scans word rest := by
  have checked : literals.all (fun known =>
      isName (String.ofList known.1) && String.ofList known.1 != "require") = true := by
    decide
  have here := all_eq_true.mp checked _ known
  rw [Bool.and_eq_true, bne_iff_ne] at here
  have ends : rest.head?.any isIdentifierPart = false :=
    divided.any_head? (by decide +kernel)
  have scans := scans_name here.1 here.2 ends
  rwa [String.toList_ofList] at scans

/-- A number is one token, or two with a minus. -/
theorem scans_signed (negative : Bool) (n : Numeral) {rest : List Char} (divided : Divided rest) :
    Scans (signed negative n) rest := by
  obtain ⟨c, body, text, digit, readAs⟩ := n.exists_read
  have scans : Scans n.text rest := by
    rw [text]
    exact scans_of_read (fun operand => readAs operand rest divided) rfl (by simp)
  cases negative with
  | false => exact scans
  | true =>
    -- No operator that starts with a minus goes on with a digit.
    have alone : isAlone Char.isDigit '-' = true := by decide
    have next : (n.text ++ rest).head?.all Char.isDigit = true := by
      rw [text]
      exact digit
    have minus : Scans ['-'] (n.text ++ rest) :=
      scans_of_read (fun _ => read_alone alone next (by simp)) rfl (by simp)
    exact minus.append scans

/-! ## All words -/

/-- The tokens are those of the words, with tokens of blank space in front of each word. -/
inductive Scanned : List (List Char) → List Token → Prop where
  | nil : Scanned [] []
  | cons {word : List Char} {words : List (List Char)} {gap ts later : List Token}
      (blank : ∀ t ∈ gap, t.kind = .blank) (calm : ∀ t ∈ ts, Calm t)
      (spelled : (concat ts).toList = word) (further : Scanned words later) :
      Scanned (word :: words) (gap ++ (ts ++ later))

theorem Scanned.append {ws us : List (List Char)} {ts later : List Token}
    (first : Scanned ws ts) (second : Scanned us later) : Scanned (ws ++ us) (ts ++ later) := by
  induction first with
  | nil => exact second
  | cons blank calm spelled _ ih =>
    rw [append_assoc, append_assoc]
    exact .cons blank calm spelled ih

theorem Scanned.forall {ts : List Token} (scanned : Scanned ws ts) :
    ∀ t ∈ ts, t.kind = .blank ∨ Calm t := by
  induction scanned with
  | nil => simp
  | cons blank calm _ _ ih =>
    simp only [forall_mem_append]
    exact ⟨fun t member => .inl (blank t member), fun t member => .inr (calm t member), ih⟩

/-- The text is scanned as tokens of the words up to `rest`. -/
def ScansTo (words : List (List Char)) (cs rest : List Char) : Prop :=
  ∀ operand start, ∃ ts operand' start',
    scanFrom operand start cs = ts ++ scanFrom operand' start' rest ∧ Scanned words ts

theorem scanFrom_gap (blank : ∀ c ∈ gap, Cursor.isBlank c = true) (noSpace : isSpace c = false)
    (operand : Bool) (start : Nat) (cs : List Char) :
    ∃ ts start', scanFrom operand start (gap ++ c :: cs) =
        ts ++ scanFrom operand start' (c :: cs) ∧
      (∀ t ∈ ts, t.kind = .blank) ∧ (concat ts).toList = gap := by
  have spaces : ∀ b ∈ gap, isSpace b = true := fun b member =>
    all_of_isBlank (by decide) (blank b member)
  cases gap with
  | nil => exact ⟨[], start, rfl, by simp, by simp [concat]⟩
  | cons b gap =>
    rw [forall_mem_cons] at spaces
    have found : Token.read operand b (gap ++ c :: cs) = ⟨.blank, gap.length⟩ := by
      simp [Token.read, spaces.1, takeWhile_append_of_pos spaces.2, noSpace]
    exact ⟨[_], _, scanFrom_of_read found start, by simp, by simp [concat]⟩

namespace ScansTo

variable {word mid : List Char} {us : List (List Char)}

theorem nil (rest : List Char) : ScansTo [] rest rest :=
  fun operand start => ⟨[], operand, start, rfl, .nil⟩

theorem cons (blank : ∀ c ∈ gap, Cursor.isBlank c = true) (present : word ≠ [])
    (here : Scans word cs) (later : ScansTo ws cs rest) :
    ScansTo (word :: ws) (gap ++ (word ++ cs)) rest := by
  intro operand start
  obtain ⟨c, body, rfl⟩ := exists_cons_of_ne_nil present
  obtain ⟨gaps, start₁, scanned, blanks, _⟩ :=
    scanFrom_gap blank here.noSpace operand start (body ++ cs)
  obtain ⟨ts, operand₂, start₂, scanned', calm, spelled⟩ := here operand start₁
  obtain ⟨more, operand₃, start₃, scanned'', further⟩ := later operand₂ start₂
  refine ⟨gaps ++ (ts ++ more), operand₃, start₃, ?_, .cons blanks calm spelled further⟩
  rw [cons_append, scanned, ← cons_append, scanned', scanned'', append_assoc,
    append_assoc]

theorem of_lays (present : word ≠ []) (here : ∀ cs, Lays ws cs rest → Scans word cs)
    (later : ∀ cs, Lays ws cs rest → ScansTo ws cs rest) (laid : Lays (word :: ws) cs rest) :
    ScansTo (word :: ws) cs rest := by
  cases laid with
  | cons blank further => exact .cons blank present (here _ further) (later _ further)

theorem of_last (present : word ≠ []) (here : Scans word rest) (laid : Lays [word] cs rest) :
    ScansTo [word] cs rest := by
  refine of_lays present ?_ ?_ laid
  · intro cs further
    cases further
    exact here
  · intro cs further
    cases further
    exact .nil rest

theorem append (first : ScansTo ws cs mid) (second : ScansTo us mid rest) :
    ScansTo (ws ++ us) cs rest := by
  intro operand start
  obtain ⟨ts, operand₁, start₁, scanned, here⟩ := first operand start
  obtain ⟨more, operand₂, start₂, scanned', later⟩ := second operand₁ start₁
  refine ⟨ts ++ more, operand₂, start₂, ?_, here.append later⟩
  rw [scanned, scanned', append_assoc]

end ScansTo

theorem quotation_ne_nil (text : List Char) : quotation text ≠ [] :=
  cons_ne_nil _ _

theorem signed_ne_nil (negative : Bool) (n : Numeral) : signed negative n ≠ [] := by
  intro empty
  have solid := solid_signed negative n
  rw [empty] at solid
  simp [Solid] at solid

theorem scansTo_behind {ws us : List (List Char)}
    (here : ∀ cs rest, Lays ws cs rest → Divided rest → ScansTo ws cs rest)
    (denotes : Denotes depth phrase us)
    (further : (∃ items, phrase = .items false items) ∨ ∃ members, phrase = .members false members)
    (later : ∀ cs, Lays us cs rest → ScansTo us cs rest) (laid : Lays (ws ++ us) cs rest) :
    ScansTo (ws ++ us) cs rest := by
  obtain ⟨mid, first, second⟩ := laid.exists_of_append
  obtain ⟨c, us, rfl, divider⟩ := denotes.exists_divider further
  exact (here _ _ first (second.divided divider)).append (later _ second)

theorem scansTo_comma {first : Bool} (later : ∀ cs, Lays ws cs rest → ScansTo ws cs rest)
    (laid : Lays (comma first ++ ws) cs rest) : ScansTo (comma first ++ ws) cs rest := by
  cases first with
  | true => exact later cs laid
  | false => exact .of_lays (by decide) (fun cs _ => scans_mark (by decide) cs) later laid

/-- Words are scanned as tokens none of which calls for a module. -/
theorem Denotes.scansTo (denotes : Denotes depth phrase ws) :
    ∀ cs rest, Lays ws cs rest → Divided rest → ScansTo ws cs rest := by
  induction denotes with
  | literal known =>
    intro cs rest laid divided
    have each : ∀ known ∈ literals, known.1 ≠ [] := by decide
    exact .of_last (each _ known) (scans_literal known divided) laid
  | number =>
    intro cs rest laid divided
    exact .of_last (signed_ne_nil _ _) (scans_signed _ _ divided) laid
  | string inside =>
    intro cs rest laid _
    exact .of_last (quotation_ne_nil _) (scans_quotation inside rest) laid
  | array _ _ ih | object _ _ ih =>
    intro cs rest laid divided
    exact .of_lays (by decide) (fun cs _ => scans_mark (by decide) cs)
      (fun cs further => ih cs rest further divided) laid
  | noItems | noMembers =>
    intro cs rest laid _
    exact .of_last (by decide) (scans_mark (by decide) rest) laid
  | item _ denotes here later =>
    intro cs rest laid divided
    refine scansTo_comma (fun cs further => ?_) laid
    exact scansTo_behind here denotes (.inl ⟨_, rfl⟩)
      (fun cs further => later cs rest further divided) further
  | members _ ih =>
    intro cs rest laid divided
    exact scansTo_comma (fun cs further => ih cs rest further divided) laid
  | entry inside _ denotes here later =>
    intro cs rest laid divided
    refine .of_lays (quotation_ne_nil _) (fun cs _ => scans_quotation inside cs) ?_ laid
    refine fun cs laid => .of_lays (by decide) (fun cs _ => scans_mark (by decide) cs) ?_ laid
    exact fun cs laid => scansTo_behind here denotes (.inr ⟨_, rfl⟩)
      (fun cs further => later cs rest further divided) laid

/-! ## Shortening -/

theorem Lays.append_right (laid : Lays ws cs rest) (more : List Char) :
    Lays ws (cs ++ more) (rest ++ more) := by
  induction laid with
  | nil rest => exact .nil _
  | cons blank _ ih =>
    rw [append_assoc, append_assoc]
    exact .cons blank ih

theorem Lays.cons_blank (laid : Lays ws cs rest) (present : ws ≠ [])
    (blank : Cursor.isBlank c = true) : Lays ws (c :: cs) rest := by
  cases laid with
  | nil => exact absurd rfl present
  | @cons gap _ _ _ _ blanks later =>
    have gap : ∀ b ∈ c :: gap, Cursor.isBlank b = true := forall_mem_cons.mpr ⟨blank, blanks⟩
    exact .cons gap later

theorem Lays.exists_front (laid : Lays ws cs rest) :
    ∃ front, cs = front ++ rest ∧ Lays ws front [] := by
  induction laid with
  | nil rest => exact ⟨[], rfl, .nil []⟩
  | @cons gap word _ _ _ blank _ ih =>
    obtain ⟨front, rfl, laid⟩ := ih
    exact ⟨gap ++ (word ++ front), by simp only [append_assoc], .cons blank laid⟩

section Shortening

variable {source : String} {before : Option Token} {apart : Bool} {t : Token}
  {ts more : List Token} {pieces : List Piece}

theorem exists_pieces_of_blank (blank : ∀ t ∈ ts, t.kind = .blank)
    (shortened : piecesFrom source before apart (ts ++ more) = .ok pieces) :
    ∃ before' apart' behind front, piecesFrom source before' apart' more = .ok behind ∧
      textOf pieces = front ++ textOf behind ∧
      ∀ c ∈ front, c = '\n' ∧ c ∈ (concat ts).toList := by
  induction ts generalizing before apart pieces with
  | nil => exact ⟨before, apart, pieces, [], shortened, rfl, by simp⟩
  | cons t ts ih =>
    obtain ⟨kind, blanks⟩ := forall_mem_cons.mp blank
    have inside {c : Char} (member : c ∈ t.text.toList ∨ c ∈ (concat ts).toList) :
        c ∈ (concat (t :: ts)).toList := by
      rwa [concat_cons, String.toList_append, mem_append]
    cases step_of_pieces shortened with
    | feeds trivia count rest further feeds here all =>
      subst here
      obtain ⟨before', apart', behind, front, later, text, spaces⟩ := ih blanks further
      refine ⟨before', apart', behind, (Piece.feeds count).text.toList ++ front, later, ?_, ?_⟩
      · rw [textOf_cons, text, append_assoc]
      · intro c member
        rcases mem_append.mp member with own | other
        · rw [Piece.text, String.toList_ofList] at own
          rw [eq_of_mem_replicate own]
          rw [all] at feeds
          exact ⟨rfl, inside (.inl (count_pos_iff.mp (Nat.pos_of_ne_zero feeds)))⟩
        · exact ⟨(spaces c other).1, inside (.inr (spaces c other).2)⟩
    | skipped trivia further none =>
      obtain ⟨before', apart', behind, front, later, text, spaces⟩ := ih blanks further
      refine ⟨before', apart', behind, front, later, text, fun c member => ?_⟩
      exact ⟨(spaces c member).1, inside (.inr (spaces c member).2)⟩
    | kept readable rest further here =>
      rw [kind] at readable
      cases readable

theorem exists_pieces_of_kept (readable : t.kind.isReadable = true)
    (shortened : piecesFrom source before apart (t :: ts) = .ok pieces) :
    ∃ behind front, piecesFrom source (some t) false ts = .ok behind ∧
      textOf pieces = front ++ (t.text.toList ++ textOf behind) ∧
      (∀ c ∈ front, Cursor.isBlank c = true) ∧
      ((apart && (before.map (needsSpace · t)).getD false) = false → front = []) := by
  have word : t.isSignificant = true := Kind.isSignificant_of_isReadable readable
  cases step_of_pieces shortened with
  | feeds trivia | skipped trivia => rw [word] at trivia; cases trivia
  | kept _ rest further here =>
    subst here
    split
    · next spaced =>
        refine ⟨rest, [' '], further, ?_, all_eq_true.mp rfl, fun unspaced => ?_⟩
        · rw [textOf_cons, textOf_cons]
          rfl
        · rw [spaced] at unspaced
          cases unspaced
    · exact ⟨rest, [], further, textOf_cons _ _, by simp, fun _ => rfl⟩

theorem exists_pieces_of_calm (calm : ∀ t ∈ ts, Calm t)
    (shortened : piecesFrom source before false (ts ++ more) = .ok pieces) :
    ∃ before' behind, piecesFrom source before' false more = .ok behind ∧
      textOf pieces = (concat ts).toList ++ textOf behind := by
  induction ts generalizing before pieces with
  | nil => exact ⟨before, pieces, shortened, by simp [concat]⟩
  | cons t ts ih =>
    obtain ⟨here, others⟩ := forall_mem_cons.mp calm
    obtain ⟨rest, front, further, text, _, tight⟩ := exists_pieces_of_kept here.readable shortened
    obtain ⟨before', behind, later, text'⟩ := ih others further
    refine ⟨before', behind, later, ?_⟩
    rw [text, tight rfl, text', concat_cons, String.toList_append, append_assoc]
    rfl

/-- Shortening keeps the text of a word. -/
theorem exists_pieces_of_word (calm : ∀ t ∈ ts, Calm t)
    (shortened : piecesFrom source before apart (ts ++ more) = .ok pieces) :
    ∃ before' apart' behind front, piecesFrom source before' apart' more = .ok behind ∧
      textOf pieces = front ++ ((concat ts).toList ++ textOf behind) ∧
      ∀ c ∈ front, Cursor.isBlank c = true := by
  cases ts with
  | nil => exact ⟨before, apart, pieces, [], shortened, by simp [concat], by simp⟩
  | cons t ts =>
    obtain ⟨here, others⟩ := forall_mem_cons.mp calm
    obtain ⟨rest, front, further, text, blank, _⟩ :=
      exists_pieces_of_kept here.readable shortened
    obtain ⟨before', behind, later, text'⟩ := exists_pieces_of_calm others further
    refine ⟨before', false, behind, front, later, ?_, blank⟩
    rw [text, text', concat_cons, String.toList_append, append_assoc]

/-- The words are still laid out in the shortened code. -/
theorem Scanned.lays (scanned : Scanned ws ts)
    (shortened : piecesFrom source before apart (ts ++ more) = .ok pieces) :
    ∃ before' apart' behind, piecesFrom source before' apart' more = .ok behind ∧
      Lays ws (textOf pieces) (textOf behind) := by
  induction scanned generalizing before apart pieces with
  | nil => exact ⟨before, apart, pieces, shortened, .nil _⟩
  | cons blank calm spelled _ ih =>
    rw [append_assoc, append_assoc] at shortened
    obtain ⟨_, _, _, gap, further, text, blanks⟩ := exists_pieces_of_blank blank shortened
    obtain ⟨_, _, _, space, further, text', blanks'⟩ := exists_pieces_of_word calm further
    obtain ⟨before', apart', behind, later, laid⟩ := ih further
    refine ⟨before', apart', behind, later, ?_⟩
    rw [text, text', spelled, ← append_assoc]
    refine .cons (forall_mem_append.mpr ⟨fun c member => ?_, blanks'⟩) laid
    rw [(blanks c member).1]
    rfl

end Shortening

/-! ## Trimming -/

theorem trim_append {front core rest : List Char} (blank : ∀ c ∈ front, Text.isBlank c = true)
    (solid : Solid core) (blank' : ∀ c ∈ rest, Text.isBlank c = true) :
    trim (String.ofList (front ++ (core ++ rest))) = String.ofList core := by
  obtain ⟨⟨c, first, start⟩, ⟨d, last, stop⟩⟩ := solid
  have starts : (core ++ rest).dropWhile Text.isBlank = core ++ rest := by
    obtain ⟨cs, rfl⟩ := head?_eq_some_iff.mp first
    rw [cons_append, dropWhile_cons_of_neg (by simp [start])]
  have ends : core.reverse.dropWhile Text.isBlank = core.reverse := by
    obtain ⟨cs, rfl⟩ := getLast?_eq_some_iff.mp last
    rw [reverse_append, reverse_singleton, singleton_append,
      dropWhile_cons_of_neg (by simp [stop])]
  rw [trim, trimEnd, String.toList_ofList, String.toList_ofList,
    dropWhile_append_of_pos blank, starts, reverse_append,
    dropWhile_append_of_pos (by simpa using blank'), ends, reverse_reverse]

theorem Lays.noBlank_getLast? (laid : Lays ws cs rest) (solid : ∀ word ∈ ws, Solid word)
    (ends : ∀ c ∈ rest.getLast?, Text.isBlank c = false) :
    ∀ c ∈ cs.getLast?, Text.isBlank c = false := by
  induction laid with
  | nil => exact ends
  | @cons gap word words cs rest blank _ ih =>
    obtain ⟨⟨_, d, last, noBlank⟩, others⟩ := forall_mem_cons.mp solid
    have further := ih others ends
    intro c member
    rw [getLast?_append, getLast?_append, Option.mem_def.mp last] at member
    cases behind : cs.getLast? with
    | none =>
      rw [behind] at member
      cases member
      exact noBlank
    | some e =>
      rw [behind] at member further
      cases member
      exact further _ rfl

/-- Trimming takes off what stands around the words and nothing else. -/
theorem Lays.trim {source : String} {rest : List Char} (laid : Lays ws source.toList rest)
    (present : ws ≠ []) (solid : ∀ word ∈ ws, Solid word)
    (blank : ∀ c ∈ rest, Cursor.isBlank c = true) : Lays ws (Text.trim source).toList [] := by
  have texts : source = String.ofList source.toList := String.ofList_toList.symm
  rw [texts]
  generalize source.toList = cs at laid
  cases laid with
  | nil => exact absurd rfl present
  | @cons gap word words cs _ gaps later =>
    obtain ⟨front, rfl, laid⟩ := later.exists_front
    have whole : Lays (word :: words) ([] ++ (word ++ front)) [] := .cons (by simp) laid
    have core : Solid (word ++ front) := by
      obtain ⟨c, first, start⟩ := (solid word mem_cons_self).1
      obtain ⟨more, rfl⟩ := head?_eq_some_iff.mp first
      have last := getLast?_eq_some_getLast (cons_ne_nil c (more ++ front))
      exact ⟨⟨c, rfl, start⟩, ⟨_, last, whole.noBlank_getLast? solid (by simp) _ last⟩⟩
    rw [← append_assoc word,
      trim_append (fun c member => all_of_isBlank (by decide) (gaps c member)) core
        (fun c member => all_of_isBlank (by decide) (blank c member)), String.toList_ofList]
    exact whole

end Tarkib.Json
