import Tarkib.Proofs.Compile.Lines
import Tarkib.Proofs.Minify.Words

/-!
# Lines that compiling adds

The lines of generated code depend on lowering alone. It adds the exports at the end, each on a line
of its own, and once more the line feeds inside literals of declarations that are replaced
(`addedFeeds`).
-/

namespace Tarkib

open Text Token

/-! ## Shortening -/

@[simp]
theorem Minify.lineFeedCount_space : lineFeedCount Piece.space.text = 0 := rfl

@[simp]
theorem Minify.lineFeedCount_token (t : Token) :
    lineFeedCount (Piece.token t).text = lineFeedCount t.text := rfl

theorem Minify.lineFeedCount_pieces {source : String} {before : Option Token} {apart : Bool}
    {ts : List Token} {pieces : List Piece}
    (shortened : piecesFrom source before apart ts = .ok pieces) :
    (pieces.map fun piece => lineFeedCount piece.text).sum = Compile.innerFeeds ts := by
  induction ts generalizing before apart pieces with
  | nil =>
    cases shortened
    rfl
  | cons t ts ih =>
    have trivia (shortened : (if 0 < lineFeedCount t.text then
          (piecesFrom source none false ts).map (.feeds (lineFeedCount t.text) :: ·)
        else piecesFrom source before true ts) = .ok pieces) :
        (pieces.map fun piece => lineFeedCount piece.text).sum =
          Compile.innerFeeds (t :: ts) := by
      split at shortened
      · obtain ⟨rest, further, rfl⟩ := exists_ok_of_map shortened
        simp [ih further]
      · next none =>
          rw [ih shortened, Compile.innerFeeds_cons]
          omega
    rw [piecesFrom.eq_def] at shortened
    cases kind : t.kind with
    | blank | lineComment | blockComment =>
      simp only [kind] at shortened
      exact trivia shortened
    | fault problem =>
      simp only [kind] at shortened
      cases shortened
    | _ =>
      simp only [kind] at shortened
      obtain ⟨rest, further, rfl⟩ := exists_ok_of_map shortened
      split <;> simp [ih further]

theorem lineFeedCount_join (texts : List String) :
    lineFeedCount (String.join texts) = (texts.map lineFeedCount).sum := by
  induction texts with
  | nil => rfl
  | cons text texts ih => simp [ih]

theorem lineFeedCount_concat (ts : List Token) :
    lineFeedCount (concat ts) = Compile.innerFeeds ts := by
  rw [concat, lineFeedCount_join, List.map_map]
  rfl

/-- Shortening keeps the line feeds of a code. -/
theorem Minify.lineFeedCount_minify {source out : String} (shortened : minify source = .ok out) :
    lineFeedCount out = lineFeedCount source := by
  rw [minify] at shortened
  cases done : piecesFrom source none false (scan source) with
  | error problem =>
    rw [done] at shortened
    cases shortened
  | ok pieces =>
    rw [done] at shortened
    cases shortened
    have covered := lineFeedCount_concat (scan source)
    rw [concat_scan] at covered
    rw [lineFeedCount_join, List.map_map, covered]
    exact lineFeedCount_pieces done

namespace Compile

/-! ## Lowering -/

/-- The words of a source that are not copied to the code: those of declarations that are replaced,
and the keywords of exports that keep what they declare. -/
def droppedTokens (options : Options) (source : String) : List Token :=
  let copied := (lowerModule options source).segments.filterMap Segment.token?
  (significant (scan source)).filter fun t => !copied.contains t

/-- The line feeds that lowering adds: those of the exports at the end, and those inside the words
that are not copied, which are there once in what takes their place and once behind it. -/
def addedFeeds (options : Options) (source : String) : Nat :=
  lineFeedCount (lowerModule options source).trailer + innerFeeds (droppedTokens options source)

theorem innerFeeds_perm {ts us : List Token} (perm : ts.Perm us) : innerFeeds ts = innerFeeds us :=
  (perm.map _).sum_eq

theorem innerFeeds_gone {ls : List Lexeme} {segments : List Segment} {gone : List Token}
    (lowers : Lowers ls segments gone) (distinct : (ls.map Lexeme.token).Nodup) :
    innerFeeds ((ls.map Lexeme.token).filter fun t =>
      !(segments.filterMap Segment.token?).contains t) = innerFeeds gone := by
  -- No token occurs twice, so none is both copied and gone.
  have apart := (List.nodup_append.mp (lowers.perm.nodup_iff.mp distinct)).2.2
  apply innerFeeds_perm
  refine (lowers.perm.filter _).trans (.of_eq ?_)
  rw [List.filter_append, List.filter_eq_nil_iff.mpr, List.nil_append, List.filter_eq_self.mpr]
  · intro t isGone
    simpa using fun copied => apart t copied t isGone rfl
  · intro t copied
    simpa using copied

theorem lineFeedCount_lowerModule (options : Options) (source : String) :
    lineFeedCount (lowerModule options source).code =
      lineFeedCount source + addedFeeds options source := by
  obtain ⟨ls, segments, trailing, gone, lowers, written_, tokens, parts, _⟩ :=
    lowers_lowerModule options source
  have header := lineFeedCount_header options source
  have distinct := nodup_significant_scan source
  rw [← tokens] at distinct
  have dropped : innerFeeds (droppedTokens options source) = innerFeeds gone := by
    rw [← innerFeeds_gone lowers distinct, droppedTokens, written_, ← tokens]
    simp [Segment.token?]
  have body : lineFeedCount (lowerModule options source).body =
      lineFeedCount source + innerFeeds gone := by
    have whole : lineFeedCount source = lineFeedCount (covered ls) + lineFeedCount trailing := by
      rw [← parts, lineFeedCount_append]
    change lineFeedCount ((lowerModule options source).header ++ written _) = _
    rw [written_, lineFeedCount_append, header, whole]
    simp [lowers.lineFeedCount_written, Segment.text, Nat.add_right_comm]
  rw [Lowered.code, lineFeedCount_append, body, addedFeeds, dropped]
  omega

/-! ## Compiling -/

theorem lineFeedCount_generate (options : Options) (source : String) :
    lineFeedCount (compile options source).code =
      lineFeedCount (generate options source).code := by
  rw [compile]
  cases options.minify with
  | false => rfl
  | true =>
    rw [if_pos rfl, shorten]
    split
    · cases done : Minify.minify (generate options source).code with
      | ok code => exact Minify.lineFeedCount_minify done
      | error problem => rfl
    · rfl

/-- A code has as many line feeds as its source and those that are added. -/
theorem lineFeedCount_compile {options : Options} {source : String}
    (code : options.kind ≠ .json) :
    lineFeedCount (compile options source).code =
      lineFeedCount source + addedFeeds options source := by
  rw [lineFeedCount_generate, ← lineFeedCount_lowerModule, generate]
  split
  · next json => exact absurd json code
  · rfl

theorem lineFeedCount_trim_le (s : String) : lineFeedCount (trim s) ≤ lineFeedCount s := by
  have fewer : ∀ cs : List Char, (cs.dropWhile isBlank).count '\n' ≤ cs.count '\n' := fun cs =>
    (List.dropWhile_sublist isBlank).count_le '\n'
  calc lineFeedCount (trim s)
      = ((s.toList.dropWhile isBlank).reverse.dropWhile isBlank).count '\n' := by
        simp [trim, trimEnd, lineFeedCount]
    _ ≤ (s.toList.dropWhile isBlank).count '\n' := by
        simpa using fewer (s.toList.dropWhile isBlank).reverse
    _ ≤ lineFeedCount s := fewer s.toList

/-- A JSON text loses the blank lines at its ends and gains nothing. -/
theorem lineFeedCount_compile_json {options : Options} {source : String}
    (json : options.kind = .json) :
    lineFeedCount (compile options source).code ≤ lineFeedCount source := by
  have front : lineFeedCount "module.exports = " = 0 := lineFeedCount_of_notMem (by decide)
  have back : lineFeedCount ";" = 0 := rfl
  rw [lineFeedCount_generate, generate, json]
  dsimp only
  rw [compileJson]
  split
  · simpa [front, back] using lineFeedCount_trim_le source
  · exact Nat.zero_le _

end Compile

end Tarkib
