import Mathlib.Data.List.Forall2
import Tarkib.Proofs.Token.Cover
import Tarkib.Resolve

/-!
# Aliases

An alias may have an asterisk, which stands for any text. A specifier fits such an alias if it
starts with what stands before the first asterisk and ends with what stands behind it, and the two
do not overlap; the sizes are compared in bytes. The alias that is chosen comes from a fold over the
table that replaces its choice only by a strictly longer one.
-/

namespace Tarkib.Config.Resolution

open List

open Text (byteLength byteLength_toList)

/-! ## Patterns -/

/-- The text has an asterisk. The first one stands between `front` and `behind`. -/
def IsPattern (text front behind : String) : Prop :=
  text = front ++ "*" ++ behind ∧ '*' ∉ front.toList

/-- The specifier starts with `front` and ends with `behind` without overlap. -/
structure Fits (front behind specifier : String) : Prop where
  starts : front.toList <+: specifier.toList
  ends : behind.toList <:+ specifier.toList
  room : front.utf8ByteSize + behind.utf8ByteSize ≤ specifier.utf8ByteSize

/-- The result is the text with its first asterisk, if it has one, replaced. -/
def Replaces (captured text result : String) : Prop :=
  '*' ∉ text.toList ∧ result = text ∨
    ∃ front behind, IsPattern text front behind ∧ result = front ++ captured ++ behind

/-- The bytes from `start` to `stop` lie inside of the text, between whole characters, and spell the
part. -/
structure IsSlice (text : String) (start stop : Nat) (part : String) : Prop where
  order : start ≤ stop
  within : stop ≤ text.utf8ByteSize
  opens : String.Pos.Raw.IsValid text ⟨start⟩
  closes : String.Pos.Raw.IsValid text ⟨stop⟩
  bytes : text.toByteArray.extract start stop = part.toByteArray

/-! ## Texts with an asterisk -/

variable {text front behind specifier : String} {entry : String × List String} {m : Match}
  {ms : List Match} {c : Resolution} {targets : List String}

theorem toList_of_isPattern (pattern : IsPattern text front behind) :
    text.toList = front.toList ++ '*' :: behind.toList := by
  rw [pattern.1]
  simp

theorem splitAsterisk_of_notMem (free : '*' ∉ text.toList) : splitAsterisk text = none := by
  have all : text.toList.dropWhile (· ≠ '*') = [] := by
    rw [dropWhile_eq_nil_iff]
    intro c member
    rw [decide_eq_true_eq]
    rintro rfl
    exact free member
  rw [splitAsterisk, all]

theorem splitAsterisk_of_isPattern (pattern : IsPattern text front behind) :
    splitAsterisk text = some (front.toList, behind.toList) := by
  have before : ∀ c ∈ front.toList, decide (c ≠ '*') = true := by
    intro c member
    rw [decide_eq_true_eq]
    rintro rfl
    exact pattern.2 member
  have rest : text.toList.dropWhile (· ≠ '*') = '*' :: behind.toList := by
    rw [toList_of_isPattern pattern, dropWhile_append_of_pos before,
      dropWhile_cons_of_neg (by decide)]
  have first : text.toList.takeWhile (· ≠ '*') = front.toList := by
    rw [toList_of_isPattern pattern, takeWhile_append_of_pos before,
      takeWhile_cons_of_neg (by decide), append_nil]
  rw [splitAsterisk, rest, first]

theorem notMem_or_isPattern (text : String) :
    '*' ∉ text.toList ∨ ∃ front behind, IsPattern text front behind := by
  by_cases member : '*' ∈ text.toList
  · obtain ⟨front, behind, split, free⟩ := eq_append_cons_of_mem member
    refine .inr ⟨String.ofList front, String.ofList behind, ?_, by simpa using free⟩
    rw [← String.toList_inj, split]
    simp
  · exact .inl member

theorem replaces_substitute (captured text : String) :
    Replaces captured text (substitute captured.toList text) := by
  rcases notMem_or_isPattern text with free | ⟨front, behind, pattern⟩
  · rw [substitute, splitAsterisk_of_notMem free]
    exact .inl ⟨free, rfl⟩
  · rw [substitute, splitAsterisk_of_isPattern pattern]
    refine .inr ⟨front, behind, pattern, ?_⟩
    rw [← String.toList_inj]
    simp

/-! ## What the asterisk stands for -/

theorem exists_append_of_starts (starts : front.toList <+: specifier.toList) :
    ∃ rest, specifier = front ++ rest := by
  obtain ⟨rest, split⟩ := starts
  refine ⟨String.ofList rest, ?_⟩
  rw [← String.toList_inj, ← split]
  simp

/-- A specifier that fits is the one text, what the asterisk stands for, and the other. -/
theorem fits_iff :
    Fits front behind specifier ↔ ∃ captured, front ++ captured ++ behind = specifier := by
  constructor
  · rintro ⟨starts, ends, room⟩
    obtain ⟨rest, rfl⟩ := exists_append_of_starts starts
    rw [String.utf8ByteSize_append] at room
    have tail : rest.toList <:+ (front ++ rest).toList := by
      rw [String.toList_append]
      exact suffix_append _ _
    rcases suffix_or_suffix_of_suffix ends tail with ⟨captured, split⟩ | ⟨more, split⟩
    · refine ⟨String.ofList captured, ?_⟩
      rw [← String.toList_inj, String.toList_append, String.toList_append, String.toList_append,
        String.toList_ofList, append_assoc, split]
    · -- The text behind would reach into the one in front, for which there is no room.
      have whole : behind = String.ofList more ++ rest := by
        rw [← String.toList_inj, ← split]
        simp
      rw [whole, String.utf8ByteSize_append] at room
      have none : String.ofList more = "" := String.utf8ByteSize_eq_zero_iff.mp (by omega)
      rw [none, String.empty_append] at whole
      exact ⟨"", by rw [whole, String.append_empty]⟩
  · rintro ⟨captured, rfl⟩
    refine ⟨?_, ?_, ?_⟩
    · simp [append_assoc]
    · rw [String.toList_append]
      exact suffix_append _ _
    · simp only [String.utf8ByteSize_append]
      omega

/-- What the asterisk stands for is cut out between whole characters. -/
theorem isSlice_captured (front captured behind : String) :
    IsSlice (front ++ captured ++ behind) front.utf8ByteSize
      ((front ++ captured ++ behind).utf8ByteSize - behind.utf8ByteSize) captured := by
  have whole : (front ++ captured ++ behind).utf8ByteSize =
      (front ++ captured).utf8ByteSize + behind.utf8ByteSize := String.utf8ByteSize_append
  have stop : (front ++ captured ++ behind).utf8ByteSize - behind.utf8ByteSize =
      (front ++ captured).utf8ByteSize := by
    omega
  rw [stop]
  refine ⟨?_, by omega, ?_, Token.isValid_utf8ByteSize _ _, ?_⟩
  · rw [String.utf8ByteSize_append]
    omega
  · rw [String.append_assoc]
    exact Token.isValid_utf8ByteSize _ _
  · rw [String.append_assoc]
    exact Token.extract_append_append _ _ _

theorem capture?_eq_some_iff {front behind specifier captured : List Char} :
    capture? front behind specifier = some captured ↔ specifier = front ++ captured ++ behind := by
  constructor
  · intro found
    unfold capture? at found
    split at found
    · next fits =>
        simp only [Bool.and_eq_true, decide_eq_true_eq, isPrefixOf_iff_prefix,
          isSuffixOf_iff_suffix] at fits
        obtain ⟨⟨room, rest, rfl⟩, ends⟩ := fits
        rw [length_append] at room
        obtain ⟨between, rfl⟩ :=
          suffix_of_suffix_length_le ends (suffix_append front rest) (by omega)
        simp at found
        rw [← found, append_assoc]
    · cases found
  · rintro rfl
    have fits : (decide (front.length + behind.length ≤ (front ++ captured ++ behind).length)
        && front.isPrefixOf (front ++ captured ++ behind)
        && behind.isSuffixOf (front ++ captured ++ behind)) = true := by
      rw [Bool.and_eq_true, Bool.and_eq_true, decide_eq_true_eq, isPrefixOf_iff_prefix,
        isSuffixOf_iff_suffix]
      refine ⟨⟨?_, ?_⟩, suffix_append _ _⟩
      · simp only [length_append]
        omega
      · rw [append_assoc]
        exact prefix_append _ _
    rw [capture?, if_pos fits]
    simp [append_assoc]

/-! ## The choice -/

theorem match?_of_isPattern (pattern : IsPattern entry.1 front behind) :
    match? specifier entry =
      (capture? front.toList behind.toList specifier.toList).map fun captured =>
        ⟨front.toList, captured, entry.2⟩ := by
  rw [match?, splitAsterisk_of_isPattern pattern]
  change (capture? front.toList behind.toList specifier.toList).bind _ = _
  cases capture? front.toList behind.toList specifier.toList <;> rfl

theorem match?_eq_some_iff :
    match? specifier entry = some m ↔
      ∃ front captured behind, IsPattern entry.1 front behind ∧
        front ++ captured ++ behind = specifier ∧
        m = ⟨front.toList, captured.toList, entry.2⟩ := by
  constructor
  · intro found
    rcases notMem_or_isPattern entry.1 with free | ⟨front, behind, pattern⟩
    · rw [match?, splitAsterisk_of_notMem free] at found
      cases found
    · rw [match?_of_isPattern pattern] at found
      obtain ⟨captured, cut, rfl⟩ := Option.map_eq_some_iff.mp found
      refine ⟨front, String.ofList captured, behind, pattern, ?_, ?_⟩
      · rw [← String.toList_inj, capture?_eq_some_iff.mp cut]
        simp
      · rw [String.toList_ofList]
  · rintro ⟨front, captured, behind, pattern, rfl, rfl⟩
    have cut : capture? front.toList behind.toList (front ++ captured ++ behind).toList =
        some captured.toList := by
      rw [capture?_eq_some_iff]
      simp
    rw [match?_of_isPattern pattern, cut]
    rfl

/-- The list has the match, with shorter ones before it and none longer behind it. -/
def Leads (m : Match) (ms : List Match) : Prop :=
  ∃ before after, ms = before ++ m :: after ∧
    (∀ other ∈ before, byteLength other.front < byteLength m.front) ∧
    ∀ other ∈ after, byteLength other.front ≤ byteLength m.front

theorem Leads.cons {next : Match} (leads : Leads m ms)
    (shorter : byteLength next.front < byteLength m.front) : Leads m (next :: ms) := by
  obtain ⟨before, after, rfl, first, longest⟩ := leads
  exact ⟨next :: before, after, rfl, forall_mem_cons.mpr ⟨shorter, first⟩, longest⟩

theorem Leads.cases {best : Match} (leads : Leads m (best :: ms)) :
    m = best ∧ (∀ other ∈ ms, byteLength other.front ≤ byteLength best.front) ∨
      byteLength best.front < byteLength m.front ∧ Leads m ms := by
  obtain ⟨before, after, split, first, longest⟩ := leads
  cases before with
  | nil =>
    obtain ⟨rfl, rfl⟩ := List.cons.inj split
    exact .inl ⟨rfl, longest⟩
  | cons other before =>
    obtain ⟨rfl, rfl⟩ := List.cons.inj split
    rw [forall_mem_cons] at first
    exact .inr ⟨first.1, before, after, rfl, first.2, longest⟩

/-- What the fold keeps is longer than everything before it and at least as long as everything
behind. -/
theorem exists_foldl_better (best : Match) (ms : List Match) :
    ∃ m, ms.foldl better (some best) = some m ∧ Leads m (best :: ms) := by
  induction ms generalizing best with
  | nil => exact ⟨best, rfl, [], [], rfl, by simp, by simp⟩
  | cons following ms ih =>
    rw [foldl_cons, better]
    split
    · next longer =>
        obtain ⟨m, kept, leads⟩ := ih following
        refine ⟨m, kept, leads.cons ?_⟩
        rcases leads.cases with ⟨rfl, _⟩ | ⟨further, _⟩
        · exact longer
        · exact Nat.lt_trans longer further
    · next shorter =>
        obtain ⟨m, kept, leads⟩ := ih best
        refine ⟨m, kept, ?_⟩
        rcases leads.cases with ⟨rfl, longest⟩ | ⟨further, leads⟩
        · refine ⟨[], following :: ms, rfl, by simp, ?_⟩
          exact forall_mem_cons.mpr ⟨Nat.not_lt.mp shorter, longest⟩
        · exact (leads.cons (by omega)).cons further

/-- The alias is chosen for the specifier: what stands before its asterisk, what the asterisk stands
for and what stands behind make up the specifier; no alias that the specifier fits has a longer text
before its asterisk, and those with one as long have greater keys. -/
structure Selects (c : Resolution) (specifier : String) (entry : String × List String)
    (front captured behind : String) : Prop where
  listed : entry ∈ c.paths
  pattern : IsPattern entry.1 front behind
  whole : front ++ captured ++ behind = specifier
  longest : ∀ other ∈ c.paths, ∀ front' behind', IsPattern other.1 front' behind' →
    Fits front' behind' specifier → front'.utf8ByteSize ≤ front.utf8ByteSize
  first : ∀ other ∈ c.paths, ∀ front' behind', IsPattern other.1 front' behind' →
    Fits front' behind' specifier → front'.utf8ByteSize = front.utf8ByteSize →
      other = entry ∨ entry.1 < other.1

theorem exists_match? (pattern : IsPattern entry.1 front behind)
    (fits : Fits front behind specifier) :
    ∃ m, match? specifier entry = some m ∧ byteLength m.front = front.utf8ByteSize := by
  obtain ⟨captured, whole⟩ := fits_iff.mp fits
  refine ⟨_, match?_eq_some_iff.mpr ⟨front, captured, behind, pattern, whole, rfl⟩, ?_⟩
  exact byteLength_toList front

/-- In a table with ascending keys this is the first of the longest. -/
theorem exists_selects (ascending : c.paths.Pairwise fun a b => a.1 < b.1)
    (leads : Leads m (c.paths.filterMap (match? specifier))) :
    ∃ entry front captured behind, Selects c specifier entry front captured behind ∧
      m = ⟨front.toList, captured.toList, entry.2⟩ := by
  obtain ⟨before, after, split, shorter, longest⟩ := leads
  obtain ⟨early, rest, table, rfl, others⟩ := filterMap_eq_append_iff.mp split
  obtain ⟨idle, entry, late, rfl, unmatched, here, rfl⟩ := filterMap_eq_cons_iff.mp others
  obtain ⟨front, captured, behind, pattern, whole, made⟩ := match?_eq_some_iff.mp here
  have own : byteLength m.front = front.utf8ByteSize := by
    rw [made]
    exact byteLength_toList front
  -- Another alias that fits stands before the chosen one and is shorter, or behind it.
  have placed : ∀ other ∈ c.paths, ∀ front' behind', IsPattern other.1 front' behind' →
      Fits front' behind' specifier →
      front'.utf8ByteSize < front.utf8ByteSize ∨
        front'.utf8ByteSize ≤ front.utf8ByteSize ∧ (other = entry ∨ entry.1 < other.1) := by
    intro other member front' behind' pattern' fits
    obtain ⟨m', found, size⟩ := exists_match? pattern' fits
    rw [table] at member ascending
    rcases mem_append.mp member with first | member
    · have := shorter m' (mem_filterMap.mpr ⟨other, first, found⟩)
      exact .inl (by omega)
    · rcases mem_append.mp member with passed | member
      · rw [unmatched other passed] at found
        cases found
      · rcases mem_cons.mp member with rfl | later
        · obtain rfl : m = m' := Option.some.inj (here.symm.trans found)
          exact .inr ⟨by omega, .inl rfl⟩
        · have := longest m' (mem_filterMap.mpr ⟨other, later, found⟩)
          refine .inr ⟨by omega, .inr ?_⟩
          have behindEntry := (pairwise_append.mp (pairwise_append.mp ascending).2.1).2.1
          exact (pairwise_cons.mp behindEntry).1 other later
  refine ⟨entry, front, captured, behind, ⟨?_, pattern, whole, ?_, ?_⟩, made⟩
  · rw [table]
    simp
  · intro other member front' behind' pattern' fits
    rcases placed other member front' behind' pattern' fits with less | ⟨atMost, _⟩
    · exact Nat.le_of_lt less
    · exact atMost
  · intro other member front' behind' pattern' fits same
    rcases placed other member front' behind' pattern' fits with less | ⟨_, order⟩
    · omega
    · exact order

/-! ## The targets -/

theorem lookup_eq_some_iff {table : List (String × List String)}
    (ascending : table.Pairwise fun a b => a.1 < b.1) {key : String} :
    table.lookup key = some targets ↔ (key, targets) ∈ table := by
  rw [List.lookup_eq_some_iff]
  constructor
  · rintro ⟨before, after, rfl, _⟩
    simp
  · intro member
    obtain ⟨before, after, rfl⟩ := append_of_mem member
    refine ⟨before, after, rfl, fun other earlier => ?_⟩
    have less := (pairwise_append.mp ascending).2.2 other earlier _ mem_cons_self
    rw [bne_iff_ne]
    rintro rfl
    exact absurd less (String.lt_irrefl _)

section Ascending

variable (ascending : c.paths.Pairwise fun a b => a.1 < b.1)
include ascending

theorem aliasTargets?_of_key (plain : '*' ∉ specifier.toList)
    (listed : (specifier, targets) ∈ c.paths) : c.aliasTargets? specifier = some targets := by
  have found := (lookup_eq_some_iff ascending).mpr listed
  simp [aliasTargets?, String.contains_char_eq, plain, found]

theorem aliasTargets?_of_notMem
    (other : ∀ targets, '*' ∉ specifier.toList → (specifier, targets) ∉ c.paths) :
    c.aliasTargets? specifier =
      ((c.paths.filterMap (match? specifier)).foldl better none).map fun m =>
        m.targets.map (substitute m.captured) := by
  have exact : (if specifier.contains '*' then none else c.paths.lookup specifier) = none := by
    rw [String.contains_char_eq]
    by_cases asterisk : '*' ∈ specifier.toList
    · simp [asterisk]
    · simp only [asterisk, decide_false, Bool.false_eq_true, if_false]
      rw [Option.eq_none_iff_forall_ne_some]
      intro targets found
      exact other targets asterisk ((lookup_eq_some_iff ascending).mp found)
  simp only [aliasTargets?, exact]

theorem aliasTargets?_of_patterns
    (other : ∀ targets, '*' ∉ specifier.toList → (specifier, targets) ∉ c.paths) :
    (c.aliasTargets? specifier = none ∧
      ∀ entry ∈ c.paths, ∀ front behind, IsPattern entry.1 front behind →
        ¬ Fits front behind specifier) ∨
    ∃ entry front captured behind, Selects c specifier entry front captured behind ∧
      c.aliasTargets? specifier = some (entry.2.map (substitute captured.toList)) := by
  rw [aliasTargets?_of_notMem ascending other]
  cases matched : c.paths.filterMap (match? specifier) with
  | nil =>
    refine .inl ⟨rfl, fun entry listed front behind pattern fits => ?_⟩
    obtain ⟨m, found, _⟩ := exists_match? pattern fits
    rw [filterMap_eq_nil_iff.mp matched entry listed] at found
    cases found
  | cons best ms =>
    obtain ⟨m, kept, leads⟩ := exists_foldl_better best ms
    rw [← matched] at leads
    obtain ⟨entry, front, captured, behind, selects, rfl⟩ := exists_selects ascending leads
    refine .inr ⟨entry, front, captured, behind, selects, ?_⟩
    rw [foldl_cons, better, kept]
    rfl

end Ascending

/-- **Aliases are chosen exactly.** In a table with ascending keys: a specifier without asterisk
that is a key stands for the targets of that key as they are. Any other one stands for something if
and only if it fits an alias with an asterisk, and then the alias with the longest text before its
asterisk is chosen, the first one of those; the two texts of the alias and what the asterisk stands
for make up the specifier, and each target has its first asterisk replaced by that. What the
asterisk stands for is always cut out between whole characters. -/
theorem aliasTargets?_exact {c : Resolution}
    (ascending : c.paths.Pairwise fun a b => a.1 < b.1) (specifier : String) :
    (∀ targets, '*' ∉ specifier.toList → (specifier, targets) ∈ c.paths →
      c.aliasTargets? specifier = some targets) ∧
    ((∀ targets, '*' ∉ specifier.toList → (specifier, targets) ∉ c.paths) →
      ((∃ results, c.aliasTargets? specifier = some results) ↔
        ∃ entry ∈ c.paths, ∃ front behind, IsPattern entry.1 front behind ∧
          Fits front behind specifier) ∧
      ∀ results, c.aliasTargets? specifier = some results →
        ∃ entry front captured behind, Selects c specifier entry front captured behind ∧
          List.Forall₂ (Replaces captured) entry.2 results) ∧
    ∀ entry ∈ c.paths, ∀ front behind, IsPattern entry.1 front behind →
      Fits front behind specifier →
      ∃ captured, front ++ captured ++ behind = specifier ∧
        IsSlice specifier front.utf8ByteSize
          (specifier.utf8ByteSize - behind.utf8ByteSize) captured := by
  refine ⟨fun targets plain listed => aliasTargets?_of_key ascending plain listed, ?_, ?_⟩
  · intro other
    rcases aliasTargets?_of_patterns ascending other with
      ⟨none, unfit⟩ | ⟨entry, front, captured, behind, selects, targets⟩
    · rw [none]
      refine ⟨⟨fun found => by simp at found, ?_⟩, fun results found => by cases found⟩
      rintro ⟨entry, listed, front, behind, pattern, fits⟩
      exact absurd fits (unfit entry listed front behind pattern)
    · refine ⟨⟨fun _ => ?_, fun _ => ⟨_, targets⟩⟩, ?_⟩
      · exact ⟨entry, selects.listed, front, behind, selects.pattern,
          fits_iff.mpr ⟨captured, selects.whole⟩⟩
      · intro results found
        obtain rfl := Option.some.inj (targets.symm.trans found)
        refine ⟨entry, front, captured, behind, selects, ?_⟩
        rw [forall₂_map_right_iff, forall₂_same]
        exact fun target _ => replaces_substitute captured target
  · intro entry _ front behind _ fits
    obtain ⟨captured, rfl⟩ := fits_iff.mp fits
    exact ⟨captured, rfl, isSlice_captured front captured behind⟩

/-- Two aliases have the same text before their asterisk, and a third one has none. -/
theorem aliasTargets?_exact_shared_front :
    let c : Resolution :=
      { paths := [("*", ["any"]), ("@б/*", ["src/*"]), ("@б/*.js", ["late"]), ("utils", ["u*"])] }
    c.aliasTargets? "utils" = some ["u*"] ∧
      ∃ results, c.aliasTargets? "@б/м.js" = some results := by
  intro c
  have ascending : c.paths.Pairwise fun a b => a.1 < b.1 := by decide
  refine ⟨(aliasTargets?_exact ascending "utils").1 ["u*"] (by decide) (by decide), ?_⟩
  have unlisted : ∀ targets, '*' ∉ "@б/м.js".toList → ("@б/м.js", targets) ∉ c.paths := by
    intro targets _ member
    simp [c] at member
  refine ((aliasTargets?_exact ascending "@б/м.js").2.1 unlisted).1.mpr ?_
  exact ⟨("@б/*", ["src/*"]), by decide, "@б/", "", ⟨rfl, by decide⟩, fits_iff.mpr ⟨"м.js", rfl⟩⟩

end Tarkib.Config.Resolution
