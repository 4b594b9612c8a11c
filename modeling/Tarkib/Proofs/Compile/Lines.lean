import Tarkib.Compile.Basic
import Tarkib.Proofs.Compile.Declaration

/-!
# The lines of generated code

Lowering copies a lexeme, replaces a declaration as a whole, or drops the keyword of an export and
keeps what it declares (`Lowers`). Where text is dropped its line feeds stay, so that what follows
keeps its line. But the text in place of a declaration holds the literal that names the module as it
is written, and the line feeds of the literal stay as well.
-/

namespace Tarkib.Compile

open Tarkib.Text Tarkib.Token
open List hiding concat

variable {ls : List Lexeme} {segments : List Segment} {start : Nat}

/-! ## Lexemes -/

@[simp]
theorem covered_nil : covered [] = "" := rfl

@[simp]
theorem covered_cons (l : Lexeme) (ls : List Lexeme) :
    covered (l :: ls) = l.lead ++ l.token.text ++ covered ls := by
  simp [covered]

@[simp]
theorem covered_append (ls ms : List Lexeme) : covered (ls ++ ms) = covered ls ++ covered ms := by
  simp [covered]

theorem covered_take_append_drop (n : Nat) (ls : List Lexeme) :
    covered (ls.take n) ++ covered (ls.drop n) = covered ls := by
  rw [← covered_append, take_append_drop]

namespace Lexeme

def Placed : Nat → List Lexeme → Prop
  | _, [] => True
  | start, l :: ls => l.token.start = start + l.lead.utf8ByteSize ∧ Placed l.token.stop ls

theorem Placed.drop (placed : Placed start ls) (n : Nat) :
    Placed (start + (covered (ls.take n)).utf8ByteSize) (ls.drop n) := by
  induction n generalizing start ls with
  | zero => simpa using placed
  | succ n ih =>
    cases ls with
    | nil => trivial
    | cons l ls =>
      obtain ⟨here, rest⟩ := placed
      have further := ih rest
      rw [stop, here] at further
      simpa [Nat.add_assoc] using further

/-- The lexemes cover the source, but for what trails behind the last one. -/
theorem covered_splitFrom (lead : String) (ts : List Token) :
    covered (splitFrom lead ts).1 ++ (splitFrom lead ts).2 = lead ++ concat ts := by
  fun_induction splitFrom lead ts with
  | case1 lead => simp [concat]
  | case2 lead t ts _ lexemes trailing split ih =>
    simp only [split] at ih
    simp [concat, String.append_assoc, ih]
  | case3 lead t ts _ ih => simp [concat, ih, String.append_assoc]

theorem token_splitFrom (lead : String) (ts : List Token) :
    (splitFrom lead ts).1.map token = significant ts := by
  fun_induction splitFrom lead ts with
  | case1 lead => rfl
  | case2 lead t ts word lexemes trailing split ih =>
    simp only [split] at ih
    simp [significant, word, ih]
  | case3 lead t ts trivia ih =>
    simp [significant, trivia, ih]

theorem placed_splitFrom {lead : String} {ts : List Token}
    (placed : Token.Placed (start + lead.utf8ByteSize) ts) :
    Placed start (splitFrom lead ts).1 := by
  fun_induction splitFrom lead ts generalizing start with
  | case1 lead => trivial
  | case2 lead t ts word lexemes trailing split ih =>
    obtain ⟨here, _, rest⟩ := placed
    simp only [split] at ih
    exact ⟨here, ih rest⟩
  | case3 lead t ts trivia ih =>
    obtain ⟨here, _, rest⟩ := placed
    apply ih
    rwa [String.utf8ByteSize_append, ← Nat.add_assoc, ← here]

end Lexeme

theorem token_dropLead (ls : List Lexeme) :
    (dropLead ls).map Lexeme.token = ls.map Lexeme.token := by
  cases ls <;> rfl

/-! ## What lowering does -/

/-- How lexemes become segments. The tokens in the last list belong to declarations that are
replaced, and to the keywords of exports that are dropped; all other tokens are copied. -/
inductive Lowers : List Lexeme → List Segment → List Token → Prop where
  | done : Lowers [] [] []
  | copied {l : Lexeme} {rest : List Lexeme} {segments : List Segment} {gone : List Token}
      (text : String) (feeds : lineFeedCount text = lineFeedCount l.token.text)
      (further : Lowers rest segments gone) :
      Lowers (l :: rest) ([.trivia l.lead, .token l.token text] ++ segments) gone
  | replaced {l : Lexeme} {rest : List Lexeme} {segments : List Segment} {gone : List Token}
      (n : Nat) (text : String)
      (stands : StandsFor text (l.token :: (rest.take n).map Lexeme.token))
      (further : Lowers (rest.drop n) segments gone) :
      Lowers (l :: rest) (Compile.replaced l (rest.take n) text ++ segments)
        (l.token :: (rest.take n).map Lexeme.token ++ gone)
  | exported {l next : Lexeme} {rest : List Lexeme} {segments : List Segment} {gone : List Token}
      (feeds : lineFeedCount l.token.text = 0)
      (further : Lowers (dropLead (next :: rest)) segments gone) :
      Lowers (l :: next :: rest)
        ([.trivia l.lead, .inserted (lineFeeds (l.token.text ++ next.lead))] ++ segments)
        (l.token :: gone)

variable {name source : String} {t : Token} {feeds : Nat} {options : Options}

theorem lineFeedCount_lookup {table : List (String × String)}
    (plain : ∀ entry ∈ table, lineFeedCount entry.2 = 0) (stays : lineFeedCount name = 0) :
    lineFeedCount ((table.lookup name).getD name) = 0 := by
  cases found : table.lookup name with
  | none => exact stays
  | some word =>
    obtain ⟨front, behind, rfl, _⟩ := List.lookup_eq_some_iff.mp found
    exact plain (name, word) (by simp)

theorem lineFeedCount_identifierText (ctx : Context) (before : List Token) (next : Option Token)
    (stays : lineFeedCount name = 0) : lineFeedCount (identifierText ctx before next name) = 0 := by
  unfold identifierText
  split_ifs
  · exact lineFeedCount_lookup (by decide) stays
  · exact stays
  · exact stays
  · exact lineFeedCount_lookup (by decide) stays
  · exact stays

/-- The lexemes behind a step. -/
def Step.remaining (step : Step) (ls : List Lexeme) : List Lexeme :=
  if step.dropsLead then dropLead (ls.drop step.size) else ls.drop step.size

section Step

variable (ctx : Context) (before : List Token) (number : Nat) {l : Lexeme} {rest : List Lexeme}

theorem segments_lowerToken (regular : StaysOnLine l.token.kind l.token.text)
    (next : Option Token) :
    ∃ text, lineFeedCount text = lineFeedCount l.token.text ∧
      (lowerToken ctx before l next).segments = [.trivia l.lead, .token l.token text] := by
  unfold lowerToken
  dsimp only
  split
  · next name kind =>
      rw [kind] at regular
      exact ⟨_, by rw [lineFeedCount_identifierText ctx before next regular.2, regular.1], rfl⟩
  · exact ⟨l.token.text, rfl, rfl⟩
  · exact ⟨l.token.text, rfl, rfl⟩
  · next c kind =>
      rw [kind] at regular
      exact ⟨"", regular.symm, rfl⟩
  · exact ⟨l.token.text, rfl, rfl⟩

variable {gone : List Token} (regular : Regular ((l :: rest).map Lexeme.token))
include regular

theorem innerFeeds_of_isWord {words : List String} (word : l.token.isWord words = true) :
    innerFeeds [l.token] = 0 := by
  simpa using lineFeedCount_of_isWord (regular l.token (by simp)) word

theorem lowers_lowerImport (word : l.token.isWord importWords = true)
    (further : Lowers ((lowerImport ctx number l rest).remaining rest) segments gone) :
    ∃ gone, Lowers (l :: rest) ((lowerImport ctx number l rest).item.segments ++ segments)
      gone := by
  have keyword := innerFeeds_of_isWord regular word
  revert further
  unfold lowerImport
  split
  · intro further
    exact ⟨_, .copied _ rfl further⟩
  · next parsed import_ =>
      intro further
      have stands := standsFor_lower_import regular.tail import_ number
      rw [← map_take] at stands
      exact ⟨_, .replaced parsed.size _ (stands.append_left keyword) further⟩

theorem lowers_lowerExport (word : l.token.isWord exportWords = true)
    (further : Lowers ((lowerExport ctx l rest).remaining rest) segments gone) :
    ∃ gone, Lowers (l :: rest) ((lowerExport ctx l rest).item.segments ++ segments) gone := by
  have keyword := innerFeeds_of_isWord regular word
  revert further
  unfold lowerExport
  split
  · intro further
    exact ⟨_, .copied _ rfl further⟩
  · next parsed export_ =>
      split
      · intro further
        exact ⟨_, .exported (by simpa using keyword) further⟩
      · intro further
        have stands := standsFor_lower_export regular.tail export_
        exact ⟨_, .replaced parsed.size _ (stands.append_left keyword) further⟩

/-- A step copies, replaces or drops. -/
theorem lowers_lowerFirst
    (further : Lowers ((lowerFirst ctx before number l rest).remaining rest) segments gone) :
    ∃ gone, Lowers (l :: rest) ((lowerFirst ctx before number l rest).item.segments ++ segments)
      gone := by
  revert further
  unfold lowerFirst
  split
  · next starts =>
      simp only [startsImport, Bool.and_eq_true] at starts
      exact lowers_lowerImport ctx number regular starts.2.1
  split
  · next starts =>
      rw [Bool.and_eq_true] at starts
      exact lowers_lowerExport ctx regular starts.2
  · obtain ⟨text, feeds, written⟩ :=
      segments_lowerToken ctx before (regular l.token (by simp)) (rest.head?.map Lexeme.token)
    intro further
    rw [written]
    exact ⟨_, .copied text feeds further⟩

end Step

theorem map_token_remaining (step : Step) (ls : List Lexeme) :
    (step.remaining ls).map Lexeme.token = (ls.map Lexeme.token).drop step.size := by
  unfold Step.remaining
  split
  · rw [token_dropLead, map_drop]
  · rw [map_drop]

theorem regular_remaining (regular : Regular (ls.map Lexeme.token)) (step : Step) :
    Regular ((step.remaining ls).map Lexeme.token) := by
  rw [map_token_remaining]
  exact regular.drop _

/-- So does the whole run. -/
theorem lowers_lowerFrom (ctx : Context) (before : List Token) (number : Nat)
    (regular : Regular (ls.map Lexeme.token)) :
    ∃ gone, Lowers ls ((lowerFrom ctx before number ls).flatMap Item.segments) gone := by
  fun_induction lowerFrom ctx before number ls with
  | case1 => exact ⟨_, .done⟩
  | case2 before number l rest step before' number' remaining ih =>
    obtain ⟨_, further⟩ := ih (regular_remaining regular.tail step)
    rw [flatMap_cons]
    exact lowers_lowerFirst ctx before number regular further

/-! ## Line feeds of the code -/

/-- The text that is written for segments. -/
def written (segments : List Segment) : String :=
  String.join (segments.map Segment.text)

@[simp]
theorem written_nil : written [] = "" := rfl

@[simp]
theorem written_cons (segment : Segment) (segments : List Segment) :
    written (segment :: segments) = segment.text ++ written segments := by
  simp [written]

@[simp]
theorem written_append (segments further : List Segment) :
    written (segments ++ further) = written segments ++ written further := by
  simp [written]

/-- The token that a segment is written for, if there is one. -/
def Segment.token? : Segment → Option Token
  | .token t _ => some t
  | _ => none

theorem mem_filterMap_token? :
    t ∈ segments.filterMap Segment.token? ↔ ∃ text, Segment.token t text ∈ segments := by
  rw [mem_filterMap]
  constructor
  · rintro ⟨segment, member, found⟩
    cases segment with
    | token source text =>
      cases found
      exact ⟨text, member⟩
    | trivia | inserted => cases found
  · rintro ⟨text, member⟩
    exact ⟨_, member, rfl⟩

/-- The tokens on their own lines: behind as many line feeds, of which there are `feeds` before the
first segment, as in the source. -/
def Aligned (source : String) : Nat → List Segment → Prop
  | _, [] => True
  | feeds, .token t text :: segments =>
    (Position.ofOffset source t.start).line = feeds + 1 ∧
      Aligned source (feeds + lineFeedCount text) segments
  | feeds, .trivia text :: segments => Aligned source (feeds + lineFeedCount text) segments
  | feeds, .inserted text :: segments => Aligned source (feeds + lineFeedCount text) segments

theorem Aligned.tail {segment : Segment} (aligned : Aligned source feeds (segment :: segments)) :
    Aligned source (feeds + lineFeedCount segment.text) segments := by
  cases segment with
  | token t text => exact aligned.2
  | trivia text | inserted text => exact aligned

theorem Aligned.line {before behind : List Segment} {text : String}
    (aligned : Aligned source feeds (before ++ .token t text :: behind)) :
    (Position.ofOffset source t.start).line = feeds + lineFeedCount (written before) + 1 := by
  induction before generalizing feeds with
  | nil => exact aligned.1
  | cons segment before ih =>
    rw [ih aligned.tail, written_cons, lineFeedCount_append, Nat.add_assoc feeds]

namespace Lowers

variable {gone : List Token} (lowers : Lowers ls segments gone)
include lowers

/-- A literal that is continued on the next line counts twice. -/
theorem lineFeedCount_written :
    lineFeedCount (written segments) = lineFeedCount (covered ls) + innerFeeds gone := by
  induction lowers with
  | done => rfl
  | copied text feeds further ih =>
    simp [Segment.text, ih, feeds, Nat.add_assoc]
  | @replaced l rest segments gone n text stands further ih =>
    simp [Compile.replaced, Segment.text, ih, stands.feeds, ← covered_take_append_drop n rest]
    omega
  | exported feeds further ih =>
    simp [Segment.text, ih, feeds, dropLead]
    omega

theorem perm : (ls.map Lexeme.token).Perm (segments.filterMap Segment.token? ++ gone) := by
  induction lowers with
  | done => exact .refl _
  | copied text feeds further ih => exact ih.cons _
  | @replaced l rest segments gone n text stands further ih =>
    let taken := l.token :: (rest.take n).map Lexeme.token
    calc (l :: rest).map Lexeme.token
        = taken ++ (rest.drop n).map Lexeme.token := by
          simp only [taken, cons_append, ← map_append, take_append_drop,
            map_cons]
      List.Perm _ (taken ++ (segments.filterMap Segment.token? ++ gone)) := ih.append_left taken
      List.Perm _ (segments.filterMap Segment.token? ++ (taken ++ gone)) :=
        perm_append_comm_assoc _ _ _
  | exported feeds further ih =>
    rw [token_dropLead] at ih
    exact (ih.cons _).trans perm_middle.symm

/-- If no replaced literal reaches over several lines, every copied token keeps its line. -/
theorem aligned (plain : innerFeeds gone = 0) {source : String} (front trailing : String)
    (placed : Lexeme.Placed front.utf8ByteSize ls)
    (parts : source = front ++ (covered ls ++ trailing)) :
    Aligned source (lineFeedCount front) (segments ++ [.trivia trailing]) := by
  -- `front` is the source up to the lexemes, and every case makes it longer.
  induction lowers generalizing front with
  | done => trivial
  | @copied l rest segments gone text feeds further ih =>
    obtain ⟨here, placed⟩ := placed
    have start : l.token.start = (front ++ l.lead).utf8ByteSize := by
      rw [here, String.utf8ByteSize_append]
    have line := line_ofOffset (front ++ l.lead) (l.token.text ++ covered rest ++ trailing)
    have later := ih plain (front ++ l.lead ++ l.token.text)
      (by rwa [stop, start, ← String.utf8ByteSize_append] at placed)
      (by simp [parts, String.append_assoc])
    refine ⟨?_, ?_⟩
    · rw [start, parts]
      simpa [String.append_assoc] using line
    · simpa [feeds] using later
  | @replaced l rest segments gone n text stands further ih =>
    obtain ⟨here, placed⟩ := placed
    rw [innerFeeds_append, ← stands.feeds, Nat.add_eq_zero_iff] at plain
    have later := ih plain.2 (front ++ l.lead ++ l.token.text ++ covered (rest.take n))
      (by
        have dropped := placed.drop n
        rwa [stop, here, ← String.utf8ByteSize_append, ← String.utf8ByteSize_append,
          ← String.utf8ByteSize_append] at dropped)
      (by simp [parts, ← covered_take_append_drop n rest, String.append_assoc])
    simpa [Compile.replaced, Aligned, plain.1, Nat.add_assoc] using later
  | @exported l next rest segments gone feeds further ih =>
    obtain ⟨here, nextHere, placed⟩ := placed
    rw [innerFeeds_cons, feeds, Nat.zero_add] at plain
    have later := ih plain (front ++ l.lead ++ l.token.text ++ next.lead)
      (by
        refine ⟨?_, placed⟩
        rw [nextHere, stop, here]
        simp [String.utf8ByteSize_append])
      (by simp [parts, dropLead, String.append_assoc])
    simpa [Aligned, Nat.add_assoc] using later

theorem strings_gone : ∀ t ∈ gone, lineFeedCount t.text ≠ 0 → ∃ value, t.kind = .string value := by
  induction lowers with
  | done => simp
  | copied text feeds further ih => exact ih
  | replaced n text stands further ih =>
    intro t member
    rcases mem_append.mp member with member | member
    · exact stands.strings t member
    · exact ih t member
  | exported feeds further ih =>
    exact forall_mem_cons.mpr ⟨fun more => absurd feeds more, ih⟩

theorem mem_token_iff (t : Token) :
    t ∈ ls.map Lexeme.token ↔ (∃ text, Segment.token t text ∈ segments) ∨ t ∈ gone := by
  rw [lowers.perm.mem_iff, mem_append, mem_filterMap_token?]

/-- No line is added exactly if every token with a line feed inside is copied. -/
theorem innerFeeds_gone_eq_zero_iff (distinct : (ls.map Lexeme.token).Nodup) :
    innerFeeds gone = 0 ↔ ∀ t ∈ ls.map Lexeme.token, lineFeedCount t.text ≠ 0 →
      ∃ text, Segment.token t text ∈ segments := by
  -- No token occurs twice, so none is both copied and gone.
  have apart := (nodup_append.mp (lowers.perm.nodup_iff.mp distinct)).2.2
  rw [innerFeeds_eq_zero_iff]
  constructor
  · intro plain t member feeds
    rcases (lowers.mem_token_iff t).mp member with copied | isGone
    · exact copied
    · exact absurd (plain t isGone) feeds
  · intro copies t isGone
    by_contra feeds
    have copied := copies t ((lowers.mem_token_iff t).mpr (.inr isGone)) feeds
    exact apart t (mem_filterMap_token?.mpr copied) t isGone rfl

end Lowers

/-! ## The module -/

theorem lowers_lowerModule (options : Options) (source : String) :
    ∃ ls segments trailing gone, Lowers ls segments gone ∧
      (lowerModule options source).segments = segments ++ [.trivia trailing] ∧
      ls.map Lexeme.token = significant (scan source) ∧
      covered ls ++ trailing = source ∧ Lexeme.Placed 0 ls := by
  have tokens := Lexeme.token_splitFrom "" (scan source)
  have regular : Regular ((Lexeme.split (scan source)).1.map Lexeme.token) := by
    intro t member
    rw [Lexeme.split, tokens] at member
    exact staysOnLine_of_mem_scanFrom t (mem_of_mem_filter member)
  obtain ⟨gone, lowers⟩ :=
    lowers_lowerFrom ⟨source, options.target, options.kind == .somon⟩ [] 0 regular
  refine ⟨_, _, (Lexeme.split (scan source)).2, gone, lowers, rfl, tokens, ?_, ?_⟩
  · rw [Lexeme.split, Lexeme.covered_splitFrom, concat_scan, String.empty_append]
  · exact Lexeme.placed_splitFrom (placed_scan source)

theorem lineFeedCount_header (options : Options) (source : String) :
    lineFeedCount (lowerModule options source).header = 0 := by
  have optional (given : Bool) {text : String} (plain : lineFeedCount text = 0) :
      lineFeedCount (if given then text else "") = 0 := by
    cases given with
    | false => rfl
    | true => exact plain
  unfold lowerModule
  dsimp only
  rw [lineFeedCount_append, optional _ (lineFeedCount_of_notMem (by decide)),
    optional _ (lineFeedCount_of_notMem (by decide))]

theorem generate_eq_lowered (code : options.kind ≠ .json) :
    let lowered := lowerModule options source
    generate options source = ⟨lowered.code, lowered.problems, lowered.warnings⟩ := by
  unfold generate
  split
  · next json => exact absurd json code
  · rfl

theorem compile_eq_lowered (code : options.kind ≠ .json) (long : options.minify = false) :
    let lowered := lowerModule options source
    compile options source = ⟨lowered.code, lowered.problems, lowered.warnings⟩ := by
  have kept : compile options source = generate options source := by
    simp only [compile, long, Bool.false_eq_true, if_false]
  exact kept.trans (generate_eq_lowered code)

theorem code_compile (code : options.kind ≠ .json) (long : options.minify = false) :
    (compile options source).code = (lowerModule options source).code := by
  rw [compile_eq_lowered code long]

/-- **Lines are kept exactly if every token with a line feed inside is copied.** The code of a
module that is not shortened is its body and the exports behind it. The body has the line feeds of
the source, and each token that is copied starts on the line that it has in the source, if and only
if no token of a replaced declaration reaches over several lines. Among those tokens only strings
can. -/
theorem compile_keeps_lines_iff (options : Options) (source : String)
    (code : options.kind ≠ .json) (long : options.minify = false) :
    let m := lowerModule options source
    (compile options source).code = m.body ++ m.trailer ∧
      ((lineFeedCount m.body = lineFeedCount source ∧
          ∀ before t text behind, m.segments = before ++ .token t text :: behind →
            (Position.after (m.header ++ written before).toList).line =
              (Position.ofOffset source t.start).line) ↔
        ∀ t ∈ significant (scan source), lineFeedCount t.text ≠ 0 →
          ∃ text, Segment.token t text ∈ m.segments) ∧
      ∀ t ∈ significant (scan source), lineFeedCount t.text ≠ 0 →
        (∃ text, Segment.token t text ∈ m.segments) ∨ ∃ value, t.kind = .string value := by
  intro m
  refine ⟨code_compile code long, ?_⟩
  obtain ⟨ls, segments, trailing, gone, lowers, written_, tokens, rfl, placed⟩ :=
    lowers_lowerModule options source
  have header := lineFeedCount_header options (covered ls ++ trailing)
  have body : lineFeedCount m.body = lineFeedCount (covered ls ++ trailing) + innerFeeds gone := by
    change lineFeedCount (m.header ++ written m.segments) = _
    simp [m, header, written_, lowers.lineFeedCount_written, Segment.text, Nat.add_right_comm]
  have copies : innerFeeds gone = 0 ↔ ∀ t ∈ significant (scan (covered ls ++ trailing)),
      lineFeedCount t.text ≠ 0 → ∃ text, Segment.token t text ∈ m.segments := by
    have distinct := nodup_significant_scan (covered ls ++ trailing)
    rw [← tokens] at distinct ⊢
    rw [lowers.innerFeeds_gone_eq_zero_iff distinct]
    simp [m, written_]
  rw [← copies]
  refine ⟨⟨?_, ?_⟩, ?_⟩
  · rintro ⟨same, _⟩
    omega
  · intro plain
    refine ⟨by omega, ?_⟩
    intro before t text behind parts
    have aligned : Aligned (covered ls ++ trailing) 0 m.segments := by
      have all := lowers.aligned plain "" trailing placed String.empty_append.symm
      rwa [← written_] at all
    rw [parts] at aligned
    rw [aligned.line, line_after]
    change lineFeedCount (m.header ++ written before) + 1 = _
    rw [lineFeedCount_append, header]
  · intro t member feeds
    rw [← tokens, lowers.mem_token_iff] at member
    rcases member with ⟨text, copied⟩ | isGone
    · exact .inl ⟨text, by simp [m, written_, copied]⟩
    · exact .inr (lowers.strings_gone t isGone feeds)

/-- A literal that is continued on the next line leaves a line feed too many. -/
theorem compile_keeps_lines_iff_continued :
    let source := "import \"./a\\\nb\";\nfoo"
    (compile {} source).code = "require(\"./a\\\nb\");\n\nfoo" ∧
      lineFeedCount source = 2 ∧
      ¬ ∀ t ∈ significant (scan source), lineFeedCount t.text ≠ 0 →
        ∃ text, Segment.token t text ∈ (lowerModule {} source).segments := by
  intro source
  refine ⟨by decide +kernel, by decide +kernel, fun copies => ?_⟩
  have kept := ((compile_keeps_lines_iff {} source nofun rfl).2.1.mpr copies).1
  have more : lineFeedCount (lowerModule {} source).body = 3 := by decide +kernel
  exact absurd (more.symm.trans kept) (by decide +kernel)

end Tarkib.Compile
