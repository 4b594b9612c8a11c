import Mathlib.Data.List.Forall2
import Tarkib.Proofs.Token.Locality
import Tarkib.Require

/-!
# Calls and their arguments

Which words are calls of `require` is a question about words that are no literals. The text of an
argument, and what is left of a code without the arguments of its calls, are taken from the
characters at certain offsets, and are made of whole tokens.
-/

namespace Tarkib

open List hiding concat concat_cons

variable {source s : String} {tokens : List Token} {call : Require} {t u : Token}
  {offset start : Nat} {before : Option Token} {p : Nat → Bool} {closed : Bool}

namespace Token

/-! ## Places of tokens -/

theorem Placed.apart (placed : Placed start tokens) (first : t ∈ tokens) (second : u ∈ tokens)
    (different : t ≠ u) : t.stop ≤ u.start ∨ u.stop ≤ t.start := by
  induction tokens generalizing start with
  | nil => cases first
  | cons v tokens ih =>
    obtain ⟨_, _, rest⟩ := placed
    rcases mem_cons.mp first with rfl | inside
    · rcases mem_cons.mp second with rfl | later
      · exact absurd rfl different
      · exact .inl (rest.le_start u later)
    · rcases mem_cons.mp second with rfl | later
      · exact .inr (rest.le_start t inside)
      · exact ih rest inside later

theorem eq_of_mem_scan (first : t ∈ scan source) (second : u ∈ scan source)
    (here : t.start ≤ offset ∧ offset < t.stop) (there : u.start ≤ offset ∧ offset < u.stop) :
    t = u := by
  by_contra different
  rcases (placed_scan source).apart first second different with before | before <;> omega

theorem eq_of_start_eq (first : t ∈ scan source) (second : u ∈ scan source)
    (same : t.start = u.start) : t = u := by
  have here := (placed_scan source).nonempty t first
  have there := (placed_scan source).nonempty u second
  exact eq_of_mem_scan first second ⟨Nat.le_refl _, here⟩ (by omega)

/-! ## Words that play the same part -/

/-- The tokens play the same part in a code: they are of the same kind, or the second one is a
string in the place of a literal. -/
def SamePart (t t' : Token) : Prop :=
  t'.kind = t.kind ∨ t.kind.isLiteral = true ∧ ∃ s, t'.kind = .string s

theorem Respelled.samePart {spell : Token → String} {t t' : Token}
    (respelled : Respelled spell t t') : SamePart t t' :=
  respelled.kind.imp_left And.left

namespace SamePart

variable {t' : Token} (same : SamePart t t')

include same

theorem isSignificant_eq : t'.isSignificant = t.isSignificant := by
  rcases same with kind | ⟨literal, s, kind⟩
  · rw [isSignificant, isSignificant, kind]
  · have word := Kind.isSignificant_of_isReadable (Kind.isReadable_of_isLiteral literal)
    rw [isSignificant, isSignificant, kind, word]
    rfl

theorem isPunct_eq (symbol : String) : t'.isPunct symbol = t.isPunct symbol := by
  rcases same with kind | ⟨literal, s, kind⟩
  · rw [isPunct, isPunct, kind]
  · rw [isPunct, isPunct, kind]
    cases old : t.kind <;> simp_all [Kind.isLiteral]

theorem isWord_eq (names : List String) : t'.isWord names = t.isWord names := by
  rcases same with kind | ⟨literal, s, kind⟩
  · rw [isWord, isWord, kind]
  · rw [isWord, isWord, kind]
    cases old : t.kind <;> simp_all [Kind.isLiteral]

theorem rebinds_eq : Require.rebinds t' = Require.rebinds t := by
  rw [Require.rebinds, Require.rebinds, same.isPunct_eq, same.isPunct_eq, same.isWord_eq]

theorem exists_literal (literal : Require.Argument.ofToken t closed = .literal s) :
    ∃ s', Require.Argument.ofToken t' closed = .literal s' := by
  rcases same with kind | ⟨_, s', kind⟩
  · refine ⟨s, ?_⟩
    rw [Require.Argument.ofToken, kind]
    exact literal
  · have closes : closed = true := by
      cases closed with
      | true => rfl
      | false =>
        unfold Require.Argument.ofToken at literal
        split at literal <;> cases literal
    refine ⟨s', ?_⟩
    rw [Require.Argument.ofToken, kind, closes]
    rfl

end SamePart

end Token

namespace Require

open Token

/-! ## Arguments -/

theorem isLiteral_of_ofToken {t : Token} (literal : Argument.ofToken t closed = .literal s) :
    t.kind.isLiteral = true := by
  unfold Argument.ofToken at literal
  split at literal <;> simp_all [Kind.isLiteral]

/-- The token is the argument of the call. -/
structure IsArgument (call : Require) (t : Token) : Prop where
  start : call.start = t.start
  stop : call.stop = t.stop

/-- A call with a literal argument has a token for it. -/
theorem exists_argument (member : call ∈ callsFrom source before tokens)
    (literal : call.argument = .literal s) :
    ∃ t ∈ tokens.drop 2, call.IsArgument t ∧ t.kind.isLiteral = true := by
  fun_induction callsFrom source before tokens with
  | case1 | case2 => cases member
  | case3 before t u rest later calls ih =>
    rcases mem_cons.mp member with rfl | member
    · cases rest with
      | nil => cases literal
      | cons first rest =>
        exact ⟨first, mem_cons_self, ⟨rfl, rfl⟩, isLiteral_of_ofToken literal⟩
    · obtain ⟨v, inside, argument⟩ := ih member
      exact ⟨v, mem_of_mem_drop inside, argument⟩
  | case4 before t u rest later other ih =>
    obtain ⟨v, inside, argument⟩ := ih member
    exact ⟨v, mem_of_mem_drop inside, argument⟩

theorem exists_token (member : call ∈ calls source) (literal : call.argument = .literal s) :
    ∃ t ∈ scan source, call.IsArgument t ∧ t.kind.isLiteral = true := by
  obtain ⟨t, inside, argument⟩ := exists_argument member literal
  exact ⟨t, mem_of_mem_filter (mem_of_mem_drop inside), argument⟩

/-- Later calls have later arguments. -/
theorem pairwise_callsFrom (ordered : tokens.Pairwise fun t u => t.start < u.start)
    (literal : ∀ call ∈ callsFrom source before tokens, ∃ s, call.argument = .literal s) :
    (callsFrom source before tokens).Pairwise fun first second => first.start < second.start := by
  fun_induction callsFrom source before tokens with
  | case1 | case2 => exact .nil
  | case3 before t u rest later calls ih =>
    have inner := (pairwise_cons.mp ordered).2
    refine pairwise_cons.mpr ⟨?_, ih inner fun call member =>
      literal call (mem_cons_of_mem _ member)⟩
    intro call member
    obtain ⟨s, argument⟩ := literal call (mem_cons_of_mem _ member)
    obtain ⟨v, inside, same, _⟩ := exists_argument member argument
    cases rest with
    | nil => cases inside
    | cons first rest =>
      rw [same.start]
      exact (pairwise_cons.mp (pairwise_cons.mp inner).2).1 v inside
  | case4 before t u rest later other ih => exact ih (pairwise_cons.mp ordered).2 literal

def Matched (pairs : List (Token × Token)) (call call' : Require) : Prop :=
  ∃ pair ∈ pairs, call.IsArgument pair.1 ∧ call'.IsArgument pair.2 ∧
    ∃ s, call'.argument = .literal s

/-- A code whose literals are replaced has the same calls. -/
theorem forall₂_callsFrom {source source' : String} (before : Option (Token × Token))
    (pairs : List (Token × Token)) (front : ∀ pair ∈ before, SamePart pair.1 pair.2)
    (same : ∀ pair ∈ pairs, SamePart pair.1 pair.2)
    (literal : ∀ call ∈ callsFrom source (before.map Prod.fst) (pairs.map Prod.fst),
      ∃ s, call.argument = .literal s) :
    List.Forall₂ (Matched pairs)
      (callsFrom source (before.map Prod.fst) (pairs.map Prod.fst))
      (callsFrom source' (before.map Prod.snd) (pairs.map Prod.snd)) := by
  induction pairs generalizing before with
  | nil => exact .nil
  | cons first pairs ih =>
    cases pairs with
    | nil => exact .nil
    | cons second rest =>
      have word := same first mem_cons_self
      have opening := same second (mem_cons_of_mem _ mem_cons_self)
      have inner : ∀ pair ∈ second :: rest, SamePart pair.1 pair.2 :=
        fun pair member => same pair (mem_cons_of_mem _ member)
      have rebinds : ((before.map Prod.snd).map rebinds).getD false =
          ((before.map Prod.fst).map rebinds).getD false := by
        cases before with
        | none => rfl
        | some pair => exact (front pair rfl).rebinds_eq
      simp only [map_cons, callsFrom, rebinds, word.isWord_eq, opening.isPunct_eq]
        at literal ⊢
      split
      · next calls =>
          simp only [calls, if_true] at literal
          have later := ih (some first) (by simpa using word) inner
            fun call member => literal call (mem_cons_of_mem _ member)
          refine .cons ?_ (later.imp fun call call' ⟨pair, member, argument⟩ =>
            ⟨pair, mem_cons_of_mem _ member, argument⟩)
          obtain ⟨s, argument⟩ := literal _ mem_cons_self
          cases rest with
          | nil => cases argument
          | cons third rest =>
            have part := inner third (mem_cons_of_mem _ mem_cons_self)
            have closed : ((rest.map Prod.snd).head?.map (·.isPunct ")")).getD false =
                ((rest.map Prod.fst).head?.map (·.isPunct ")")).getD false := by
              cases rest with
              | nil => rfl
              | cons fourth rest => exact (inner fourth (by simp)).isPunct_eq ")"
            refine ⟨third, by simp, ⟨rfl, rfl⟩, ⟨rfl, rfl⟩, ?_⟩
            simp only [map_cons, ofTokens, closed] at argument ⊢
            exact part.exists_literal argument
      · next other =>
          simp only [other] at literal
          have later := ih (some first) (by simpa using word) inner literal
          exact later.imp fun call call' ⟨pair, member, argument⟩ =>
            ⟨pair, mem_cons_of_mem _ member, argument⟩

end Require

/-! ## Characters at offsets -/

namespace Text

/-- The characters at the offsets that a test admits; the first character stands at `offset`. -/
def charsAt (p : Nat → Bool) (offset : Nat) : List Char → List Char
  | [] => []
  | c :: cs =>
    let later := charsAt p (offset + c.utf8Size) cs
    if p offset then c :: later else later

theorem charsAt_append (p : Nat → Bool) (offset : Nat) (cs ds : List Char) :
    charsAt p offset (cs ++ ds) =
      charsAt p offset cs ++ charsAt p (offset + byteLength cs) ds := by
  induction cs generalizing offset with
  | nil => rfl
  | cons c cs ih =>
    simp only [cons_append, charsAt, ih, byteLength_cons, Nat.add_assoc]
    split <;> rfl

theorem charsAt_of_level {b : Bool} {cs : List Char}
    (level : ∀ o, offset ≤ o → o < offset + byteLength cs → p o = b) :
    charsAt p offset cs = if b then cs else [] := by
  induction cs generalizing offset with
  | nil => simp [charsAt]
  | cons c cs ih =>
    have wide := c.utf8Size_pos
    have here : p offset = b := by
      apply level
      · exact Nat.le_refl _
      · rw [byteLength_cons]
        omega
    have later : charsAt p (offset + c.utf8Size) cs = if b then cs else [] := by
      apply ih
      intro o low high
      apply level
      · omega
      · rw [byteLength_cons]
        omega
    rw [charsAt, here, later]
    cases b <;> rfl

end Text

namespace Require

open Token Text

/-- Whether the first token of the argument reaches over an offset. -/
def covers (call : Require) (offset : Nat) : Bool :=
  call.start ≤ offset && offset < call.stop

/-- The text of the argument of a call. -/
def argumentText (source : String) (call : Require) : String :=
  String.ofList (charsAt call.covers 0 source.toList)

/-- A code without the arguments of its calls. -/
def withoutArguments (source : String) : String :=
  String.ofList (charsAt (fun offset => !(calls source).any (·.covers offset)) 0 source.toList)

theorem charsAt_concat {keep : Token → Bool} (placed : Placed start tokens)
    (level : ∀ t ∈ tokens, ∀ o, t.start ≤ o → o < t.stop → p o = keep t) :
    charsAt p start (concat tokens).toList = (concat (tokens.filter keep)).toList := by
  induction tokens generalizing start with
  | nil => rfl
  | cons t tokens ih =>
    obtain ⟨rfl, _, rest⟩ := placed
    have later := ih rest fun u member => level u (mem_cons_of_mem _ member)
    have here : charsAt p t.start t.text.toList = if keep t then t.text.toList else [] := by
      apply charsAt_of_level
      rw [byteLength_toList]
      exact level t mem_cons_self
    rw [concat_cons, String.toList_append, charsAt_append, here, byteLength_toList]
    rw [Token.stop] at later
    rw [later, filter_cons]
    split
    · rw [concat_cons, String.toList_append]
    · rfl

theorem covers_eq (argument : call.IsArgument t) (first : t ∈ scan source)
    (second : u ∈ scan source) (low : u.start ≤ offset) (high : offset < u.stop) :
    call.covers offset = (call.start == u.start) := by
  rw [Bool.eq_iff_iff, covers, Bool.and_eq_true, decide_eq_true_eq, decide_eq_true_eq, beq_iff_eq,
    argument.start, argument.stop]
  constructor
  · intro inside
    rw [eq_of_mem_scan first second inside ⟨low, high⟩]
  · intro same
    rw [eq_of_start_eq first second same]
    exact ⟨low, high⟩

/-- The text of an argument is that of its token. -/
theorem argumentText_eq {t : Token} (argument : call.IsArgument t) (member : t ∈ scan source) :
    call.argumentText source = t.text := by
  have nodup : (scan source).Nodup := (placed_scan source).pairwise.imp fun {u v} before same => by
    rw [same] at before
    exact Nat.lt_irrefl _ before
  have alone : ((scan source).filter fun u => call.start == u.start) = [t] := by
    have same : ∀ u ∈ scan source, (call.start == u.start) = (u == t) := by
      intro u inside
      rw [Bool.eq_iff_iff, beq_iff_eq, beq_iff_eq, argument.start]
      exact ⟨fun start => (eq_of_start_eq member inside start).symm, fun equal => by rw [equal]⟩
    rw [filter_congr same, filter_beq, nodup.count, if_pos member]
    rfl
  have taken := charsAt_concat (p := call.covers) (placed_scan source) fun u inside o low high =>
    covers_eq argument member inside low high
  rw [concat_scan, alone] at taken
  rw [argumentText, taken, concat_cons, String.ofList_toList]
  simp [concat]

/-- Without the arguments a code consists of all other tokens. -/
theorem withoutArguments_eq
    (literal : ∀ call ∈ calls source, ∃ s, call.argument = .literal s) :
    withoutArguments source =
      concat ((scan source).filter fun t => !(calls source).any (·.start == t.start)) := by
  have level : ∀ t ∈ scan source, ∀ o, t.start ≤ o → o < t.stop →
      (!(calls source).any (·.covers o)) = !(calls source).any (·.start == t.start) := by
    intro t inside o low high
    rw [Bool.eq_iff_iff, Bool.not_eq_true', Bool.not_eq_true', any_eq_false, any_eq_false]
    refine forall_congr' fun call => forall_congr' fun member => ?_
    obtain ⟨s, argument⟩ := literal call member
    obtain ⟨u, found, argument, _⟩ := exists_token member argument
    rw [covers_eq argument found inside low high]
  have taken := charsAt_concat (placed_scan source) level
  rw [concat_scan] at taken
  rw [withoutArguments, taken, String.ofList_toList]

end Require

end Tarkib
