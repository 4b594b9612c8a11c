import Tarkib.Proofs.Bundle.Link
import Tarkib.Proofs.Compile.Surplus
import Tarkib.Proofs.SourceMap.Reading

/-!
# Where the map of a bundle points to

The map of a bundle gives for each line of a linked code the line with the same number in the source
of the module. It does not ask whether the source has such a line, so it points outside a source
exactly if some code has more lines than its source. Linking takes lines away where an argument that
is replaced reaches over several of them.
-/

namespace Tarkib.Bundle

open Token Require Text Compile List

/-! ## Lines of linked codes -/

theorem lineFeedCount_quote (s : String) : lineFeedCount (Json.quote s) = 0 := by
  have plain : ∀ c, '\n' ∉ Json.escape c := by
    intro c
    have digits : ∀ n < 16, '\n' ≠ Json.hexDigit n := by decide
    fun_cases Json.escape c with
    | case8 _ _ _ _ _ _ _ control =>
      simp [digits (c.toNat / 16) (by omega), digits (c.toNat % 16) (by omega)]
    | case9 _ _ _ _ other _ _ _ =>
      intro feed
      exact other (beq_iff_eq.mpr (mem_singleton.mp feed).symm)
    | _ => decide
  rw [lineFeedCount_eq_zero_iff, Json.quote, String.toList_ofList]
  simp [plain]

/-- Whether the module means a file by the argument of a call. -/
def meansFile (m : Module) (call : Require) : Bool :=
  match call.argument with
  | .literal specifier =>
    (m.dependencies.find? (·.specifier == specifier)).any fun d => !d.target.isExternal
  | _ => false

/-- The line feeds inside the arguments that linking replaces. -/
def removedFeeds (m : Module) : Nat :=
  (((calls m.code).filter (meansFile m)).map fun call =>
    lineFeedCount (call.argumentText m.code)).sum

variable {replaced : List (Nat × String)} {modules : List Module} {laid : List Part} {n : Nat}
  {root : Path} {request : Request} {g : Graph} {b : Bundle}

theorem lineFeedCount_splice
    (plain : ∀ start text, replaced.lookup start = some text → lineFeedCount text = 0)
    (ts : List Token) :
    lineFeedCount (splice replaced ts) +
      innerFeeds (ts.filter fun t => (replaced.lookup t.start).isSome) = innerFeeds ts := by
  induction ts with
  | nil => rfl
  | cons t ts ih =>
    have first : splice replaced (t :: ts) =
        (replaced.lookup t.start).getD t.text ++ splice replaced ts := by
      simp [splice]
    rw [first, lineFeedCount_append, innerFeeds_cons, filter_cons, ← ih]
    cases found : replaced.lookup t.start with
    | none =>
      simp only [Option.getD_none, Option.isSome_none, Bool.false_eq_true, if_false]
      omega
    | some text =>
      simp only [Option.getD_some, Option.isSome_some, if_true, innerFeeds_cons, plain _ _ found]
      omega

variable {m : Module} {id : String} {ids : Ids} {externals : List String}

theorem meansFile_iff_of_links {call : Require} {text? : Option String}
    (links : Links m ids externals call text?) : meansFile m call = text?.isSome := by
  cases links with
  | file literal found means _
  | external literal found means _ => simp [meansFile, literal, found, means, Resolved.isExternal]

/-- The line feeds that get lost are those of the arguments that mean files. -/
theorem innerFeeds_replaced (done : replacements m id ids externals (calls m.code) = .ok replaced) :
    innerFeeds ((scan m.code).filter fun t => (replaced.lookup t.start).isSome) =
      removedFeeds m := by
  have literal := exists_literal_of_replacements done
  have ordered : (calls m.code).Pairwise fun first second => first.start < second.start :=
    pairwise_callsFrom ((placed_scan m.code).pairwise.filter isSignificant) literal
  have links := links_of_replacements done ordered
  -- Both sides are sums over offsets, at each of which at most one token starts.
  let value (start : Nat) : Nat := innerFeeds ((scan m.code).find? (·.start == start)).toList
  have value_eq : ∀ t ∈ scan m.code, value t.start = lineFeedCount t.text := by
    intro t member
    have starts : ((scan m.code).find? (·.start == t.start)).isSome = true := by
      rw [find?_isSome]
      exact ⟨t, member, beq_self_eq_true _⟩
    obtain ⟨u, found⟩ := Option.isSome_iff_exists.mp starts
    have first := find?_some found
    have same := eq_of_start_eq (mem_of_find?_eq_some found) member (beq_iff_eq.mp first)
    simp [value, found, same]
  have tokens : innerFeeds ((scan m.code).filter fun t => (replaced.lookup t.start).isSome) =
      ((((scan m.code).filter fun t => (replaced.lookup t.start).isSome).map Token.start).map
        value).sum := by
    rw [innerFeeds, map_map]
    congr 1
    refine map_congr_left fun t member => ?_
    exact (value_eq t (mem_of_mem_filter member)).symm
  have arguments : removedFeeds m =
      ((((calls m.code).filter (meansFile m)).map Require.start).map value).sum := by
    rw [removedFeeds, map_map]
    congr 1
    refine map_congr_left fun call member => ?_
    have inside := mem_of_mem_filter member
    obtain ⟨s, spelled⟩ := literal call inside
    obtain ⟨t, found, argument, _⟩ := exists_token inside spelled
    rw [argumentText_eq argument found, Function.comp_apply, argument.start, value_eq t found]
  rw [tokens, arguments]
  refine List.Perm.sum_eq (List.Perm.map value ?_)
  refine (perm_ext_iff_of_nodup ?_ ?_).mpr fun start => ?_
  · refine List.Pairwise.map _ (fun _ _ => Nat.ne_of_lt) ?_
    exact (placed_scan m.code).pairwise.filter _
  · exact List.Pairwise.map _ (fun _ _ => Nat.ne_of_lt) (ordered.filter _)
  · rw [mem_map, mem_map]
    constructor
    · rintro ⟨t, member, rfl⟩
      obtain ⟨text, found⟩ := Option.isSome_iff_exists.mp (mem_filter.mp member).2
      obtain ⟨call, inside, same, link⟩ := exists_call_of_lookup done found
      exact ⟨call, mem_filter.mpr ⟨inside, meansFile_iff_of_links link⟩, same⟩
    · rintro ⟨call, member, rfl⟩
      obtain ⟨inside, file⟩ := mem_filter.mp member
      rw [meansFile_iff_of_links (links call inside)] at file
      obtain ⟨s, spelled⟩ := literal call inside
      obtain ⟨t, found, argument, _⟩ := exists_token inside spelled
      exact ⟨t, mem_filter.mpr ⟨found, argument.start ▸ file⟩, argument.start.symm⟩

/-- A linked code has the lines of the code but for those inside of replaced arguments. -/
theorem lineFeedCount_link {out : String} (linked : link m id ids externals = .ok out) :
    lineFeedCount out + removedFeeds m = lineFeedCount m.code := by
  obtain ⟨replaced, done, rfl⟩ := link_eq_ok_iff.mp linked
  have plain : ∀ start text, replaced.lookup start = some text → lineFeedCount text = 0 := by
    intro start text found
    obtain ⟨call, _, _, links⟩ := exists_call_of_lookup done found
    cases links with
    | file => exact lineFeedCount_quote _
  have covered := lineFeedCount_concat (scan m.code)
  rw [concat_scan] at covered
  rw [← innerFeeds_replaced done, lineFeedCount_splice plain, covered]

/-! ## The lines of the map -/

/-- The map with the lines of parts that are laid out behind the given line. -/
def mapParts (map : SourceMap) (line : Nat) : List (Module × Part) → SourceMap
  | [] => map
  | (m, part) :: pairs =>
    mapParts (mapPart map m part (line + 2)) (line + 2 + lineFeedCount part.code + 1) pairs

theorem sourceMap_eq_mapParts (same : modules.length = laid.length) :
    sourceMap modules laid = mapParts {} (loaderLines.length - 1) (modules.zip laid) := by
  rw [sourceMap, startLines]
  generalize ({} : SourceMap) = map, loaderLines.length - 1 = line
  induction modules generalizing laid map line with
  | nil => rfl
  | cons m modules ih =>
    cases laid with
    | nil => cases same
    | cons part laid =>
      rw [startLinesFrom, zip_cons_cons, zip_cons_cons, foldl_cons, mapParts]
      exact ih (Nat.succ.inj same) _ _

section Map

variable (map : SourceMap)

theorem foldl_mapLine (start source count : Nat) :
    let final := (List.range count).foldl
      (fun map line => map.mapLine (start + line) ⟨source, line⟩) map
    final.sources = map.sources ∧ ∀ n, final.placeAt n =
      if start ≤ n ∧ n < start + count then some ⟨source, n - start⟩ else map.placeAt n := by
  induction count with
  | zero =>
    refine ⟨rfl, fun n => ?_⟩
    rw [if_neg (by omega)]
    rfl
  | succ count ih =>
    obtain ⟨sources, places⟩ := ih
    simp only [range_succ, foldl_append, foldl_cons, foldl_nil]
    refine ⟨sources, fun n => ?_⟩
    rw [SourceMap.placeAt, SourceMap.mapLine, SourceMap.getD_setLine, ← SourceMap.placeAt, places n]
    split
    · next here =>
        rw [if_pos (by omega), ← here, Nat.add_sub_cancel_left]
    · next other =>
        by_cases inside : start ≤ n ∧ n < start + count
        · rw [if_pos inside, if_pos (by omega)]
        · rw [if_neg inside, if_neg (by omega)]

theorem sources_mapPart (m : Module) (part : Part) (start : Nat) :
    (mapPart map m part start).sources = map.sources ++ [⟨part.id, m.source⟩] :=
  (foldl_mapLine (map.addSource ⟨part.id, m.source⟩) start map.sources.length _).1

theorem placeAt_mapPart (m : Module) (part : Part) (start n : Nat) :
    (mapPart map m part start).placeAt n =
      if start ≤ n ∧ n < start + (lineFeedCount part.code + 1) then
        some ⟨map.sources.length, n - start⟩
      else map.placeAt n :=
  (foldl_mapLine (map.addSource ⟨part.id, m.source⟩) start map.sources.length _).2 n

theorem sources_mapParts (line : Nat) (pairs : List (Module × Part)) :
    (mapParts map line pairs).sources =
      map.sources ++ pairs.map fun pair => ⟨pair.2.id, pair.1.source⟩ := by
  fun_induction mapParts map line pairs with
  | case1 => simp
  | case2 map line m part pairs ih =>
    rw [ih, sources_mapPart, append_assoc]
    rfl

theorem placeAt_mapParts_of_le (line : Nat) (pairs : List (Module × Part)) (before : n ≤ line) :
    (mapParts map line pairs).placeAt n = map.placeAt n := by
  fun_induction mapParts map line pairs with
  | case1 => rfl
  | case2 map line m part pairs ih =>
    rw [ih (by omega), placeAt_mapPart, if_neg (by omega)]

/-- Nothing is recorded but lines of codes, each once, because the codes are laid out one behind the
other. -/
theorem placeAt_mapParts (line : Nat) (pairs : List (Module × Part))
    {place : SourceMap.Place} (recorded : (mapParts map line pairs).placeAt n = some place) :
    map.placeAt n = some place ∨ ∃ i pair, pairs[i]? = some pair ∧
      place.source = map.sources.length + i ∧ place.line ≤ lineFeedCount pair.2.code := by
  fun_induction mapParts map line pairs with
  | case1 => exact .inl recorded
  | case2 map line m part pairs ih =>
    rcases ih recorded with early | ⟨i, pair, found, source, last⟩
    · rw [placeAt_mapPart] at early
      split at early
      · cases early
        exact .inr ⟨0, (m, part), rfl, rfl, by dsimp only; omega⟩
      · exact .inl early
    · rw [sources_mapPart, length_append, length_singleton] at source
      exact .inr ⟨i + 1, pair, found, by omega, last⟩

/-- Every line of every code is recorded. -/
theorem exists_placeAt_mapParts (line : Nat) (pairs : List (Module × Part))
    {i : Nat} {pair : Module × Part} (found : pairs[i]? = some pair) :
    ∃ n, (mapParts map line pairs).placeAt n =
      some ⟨map.sources.length + i, lineFeedCount pair.2.code⟩ := by
  fun_induction mapParts map line pairs generalizing i with
  | case1 => simp at found
  | case2 map line m part pairs ih =>
    cases i with
    | zero =>
      cases found
      refine ⟨line + 2 + lineFeedCount part.code, ?_⟩
      -- The parts behind this one start on later lines.
      rw [placeAt_mapParts_of_le _ _ _ (by omega), placeAt_mapPart, if_pos (by omega),
        Nat.add_sub_cancel_left]
      rfl
    | succ i =>
      obtain ⟨n, recorded⟩ := ih found
      rw [sources_mapPart, length_append, length_singleton] at recorded
      exact ⟨n, by rw [recorded, Nat.add_assoc, Nat.add_comm 1]⟩

end Map

/-! ## The map of a graph -/

theorem ofGraph_eq_ok (made : ofGraph root request g = .ok b) :
    ∃ ids laid, assignIds root g.modules = .ok ids ∧
      parts ids request.externals g.modules = .ok laid ∧
      b.map = if request.sourceMaps then
          some ((sourceMap g.modules laid).render request.inlineSources)
        else none := by
  obtain ⟨ids, assigned, made⟩ := bind_eq_ok made
  obtain ⟨laid, done, made⟩ := bind_eq_ok made
  refine ⟨ids, laid, assigned, done, ?_⟩
  dsimp only [bind, Except.bind] at made
  split at made
  · split at made <;> cases made
    rfl
  · cases made
    rfl

/-- The map of a bundle, line by line. -/
theorem exists_map_of_ofGraph (made : ofGraph root request g = .ok b)
    (mapped : request.sourceMaps = true) :
    ∃ map : SourceMap, b.map = some (map.render request.inlineSources) ∧
      map.sources.map SourceMap.Source.content = g.modules.map Module.source ∧
      (∀ n place, map.placeAt n = some place → ∃ m, g.modules[place.source]? = some m ∧
        place.line + removedFeeds m ≤ lineFeedCount m.code) ∧
      ∀ (i : Nat) (m : Module), g.modules[i]? = some m → ∃ n line,
        map.placeAt n = some ⟨i, line⟩ ∧ line + removedFeeds m = lineFeedCount m.code := by
  obtain ⟨ids, laid, _, done, rendered⟩ := ofGraph_eq_ok made
  have linked := forall₂_link_of_parts done
  have same := linked.length_eq
  rw [mapped, if_pos rfl, sourceMap_eq_mapParts same] at rendered
  -- A pair of a module and a part is found at the number of the module.
  have lines {i : Nat} {pair : Module × Part} (found : (g.modules.zip laid)[i]? = some pair) :
      g.modules[i]? = some pair.1 ∧
        lineFeedCount pair.2.code + removedFeeds pair.1 = lineFeedCount pair.1.code := by
    obtain ⟨own, other⟩ := getElem?_zip_eq_some.mp found
    have member : (pair.1, pair.2) ∈ g.modules.zip laid := mem_of_getElem? found
    exact ⟨own, lineFeedCount_link (forall₂_zip linked member)⟩
  refine ⟨_, rendered, ?_, ?_, ?_⟩
  · rw [sources_mapParts, nil_append, map_map]
    have first := map_fst_zip (Nat.le_of_eq same)
    rw [← congrArg (List.map Module.source) first, map_map]
    rfl
  · intro n place recorded
    rcases placeAt_mapParts _ _ _ recorded with early | ⟨i, pair, found, source, last⟩
    · cases early
    · obtain ⟨own, feeds⟩ := lines found
      rw [length_nil, Nat.zero_add] at source
      exact ⟨pair.1, source ▸ own, by omega⟩
  · intro i m own
    have inside := (List.getElem?_eq_some_iff.mp own).1
    obtain ⟨pair, found⟩ : ∃ pair, (g.modules.zip laid)[i]? = some pair := by
      refine ⟨_, getElem?_eq_getElem ?_⟩
      rw [length_zip]
      omega
    obtain ⟨again, feeds⟩ := lines found
    rw [own] at again
    cases again
    obtain ⟨n, recorded⟩ := exists_placeAt_mapParts {} (loaderLines.length - 1) _ found
    rw [length_nil, Nat.zero_add] at recorded
    exact ⟨n, _, recorded, feeds⟩

end Tarkib.Bundle
