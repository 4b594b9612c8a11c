import Tarkib.Proofs.Bundle.Outcome
import Tarkib.Proofs.Require.Calls

/-!
# Linked codes

Linking puts the ids of modules in the place of the arguments of calls. The result is not looked at
again: that it still has the calls of the code, and that they name what they should, follows from
what a token depends on. The main statement (`link_exact`) compares the calls of the linked code
with those of the code, one by one, and says that nothing but arguments was touched.
-/

namespace Tarkib.Bundle

open Token Require
open List hiding concat concat_cons

variable {pairs : List (Token × Token)} {pair : Token × Token}

/-! ## The texts of tokens in the linked code -/

def spelling (replaced : List (Nat × String)) (t : Token) : String :=
  (replaced.lookup t.start).getD t.text

theorem toList_splice (replaced : List (Nat × String)) (tokens : List Token) :
    (splice replaced tokens).toList = respelling (spelling replaced) tokens := by
  induction tokens with
  | nil => rfl
  | cons t tokens ih =>
    rw [splice] at ih ⊢
    rw [map_cons, String.join_cons, String.toList_append, ih, respelling_cons]
    rfl

variable {m : Module} {id : String} {ids : Ids} {externals : List String}
  {replaced : List (Nat × String)}

theorem exists_literal_of_links {call : Require} {text? : Option String}
    (links : Links m ids externals call text?) : ∃ s, call.argument = .literal s := by
  cases links with
  | file literal => exact ⟨_, literal⟩
  | external literal => exact ⟨_, literal⟩

theorem exists_literal_of_replacements
    (done : replacements m id ids externals (calls m.code) = .ok replaced) :
    ∀ call ∈ calls m.code, ∃ s, call.argument = .literal s := by
  intro call member
  obtain ⟨text?, links⟩ := exists_replacements_iff.mp ⟨replaced, done⟩ call member
  exact exists_literal_of_links links

/-- A quoted id can stand in the place of any argument without changing the tokens around it. -/
theorem canSpell_spelling
    (done : replacements m id ids externals (calls m.code) = .ok replaced) :
    ∀ t ∈ scan m.code, t.CanSpell (spelling replaced t) := by
  intro t member
  cases found : replaced.lookup t.start with
  | none => exact .inl (by rw [spelling, found, Option.getD_none])
  | some text =>
    obtain ⟨call, inside, same, links⟩ := exists_call_of_lookup done found
    obtain ⟨s, literal⟩ := exists_literal_of_links links
    obtain ⟨u, other, argument, literal⟩ := exists_token inside literal
    obtain rfl : u = t := eq_of_start_eq other member (argument.start.symm.trans same)
    refine .inr ⟨literal, ?_⟩
    rw [spelling, found, Option.getD_some]
    cases links with
    | file => exact ⟨_, rfl⟩

/-! ## The calls of the linked code -/

/-- The argument of the second call, in the linked code, is what the first one, in the code of the
module, refers to: the id of a module of the bundle, or the library that it names. -/
structure Relinked (m : Module) (ids : Ids) (out : String) (call call' : Require) : Prop where
  literal : ∃ s, call'.argument = .literal s
  text : ∃ specifier d, call.argument = .literal specifier ∧
    m.dependencies.find? (·.specifier == specifier) = some d ∧
    match d.target with
    | .file path => ∃ target, ids.find? path = some target ∧
        call'.argumentText out = Json.quote target
    | .external _ => call'.argumentText out = call.argumentText m.code

theorem start_eq_iff
    (ordered : pairs.Pairwise fun p q => p.1.start < q.1.start ∧ p.2.start < q.2.start)
    {p q : Token × Token} (first : p ∈ pairs) (second : q ∈ pairs) :
    p.1.start = q.1.start ↔ p.2.start = q.2.start := by
  induction pairs with
  | nil => cases first
  | cons r pairs ih =>
    obtain ⟨before, ordered⟩ := pairwise_cons.mp ordered
    rcases mem_cons.mp first with rfl | inside
    · rcases mem_cons.mp second with rfl | later
      · exact iff_of_true rfl rfl
      · have := before q later
        exact iff_of_false (by omega) (by omega)
    · rcases mem_cons.mp second with rfl | later
      · have := before p inside
        exact iff_of_false (by omega) (by omega)
      · exact ih ordered inside later

theorem any_start_eq
    (ordered : pairs.Pairwise fun p q => p.1.start < q.1.start ∧ p.2.start < q.2.start)
    {old new : List Require} (calls : List.Forall₂ (Matched pairs) old new)
    (member : pair ∈ pairs) :
    old.any (·.start == pair.1.start) = new.any (·.start == pair.2.start) := by
  induction calls with
  | nil => rfl
  | cons here later ih =>
    obtain ⟨other, inside, first, second, _⟩ := here
    have same : (other.1.start == pair.1.start) = (other.2.start == pair.2.start) := by
      rw [Bool.eq_iff_iff, beq_iff_eq, beq_iff_eq]
      exact start_eq_iff ordered inside member
    rw [any_cons, any_cons, ih, first.start, second.start, same]

theorem concat_filter_eq {keep keep' : Token → Bool}
    (same : ∀ pair ∈ pairs, keep pair.1 = keep' pair.2)
    (text : ∀ pair ∈ pairs, keep pair.1 = true → pair.2.text = pair.1.text) :
    concat ((pairs.map Prod.snd).filter keep') = concat ((pairs.map Prod.fst).filter keep) := by
  induction pairs with
  | nil => rfl
  | cons pair pairs ih =>
    have here := same pair mem_cons_self
    have later := ih (fun p inside => same p (mem_cons_of_mem _ inside))
      fun p inside => text p (mem_cons_of_mem _ inside)
    rw [map_cons, map_cons, filter_cons, filter_cons, ← here]
    split
    · next kept =>
        rw [concat_cons, concat_cons, later, text pair mem_cons_self kept]
    · exact later

/-- The tokens of the code and those of the linked code in pairs. -/
structure Pairs (code out : String) (replaced : List (Nat × String))
    (pairs : List (Token × Token)) : Prop where
  old : pairs.map Prod.fst = scan code
  new : pairs.map Prod.snd = scan out
  respelled : ∀ pair ∈ pairs, Respelled (spelling replaced) pair.1 pair.2

/-- The tokens of the linked code are those of the code, but for replaced arguments. -/
theorem exists_pairs (done : replacements m id ids externals (calls m.code) = .ok replaced) :
    ∃ pairs, Pairs m.code (splice replaced (scan m.code)) replaced pairs := by
  obtain ⟨pairs, old, new, respelled⟩ :=
    exists_respelling true 0 0 m.code.toList (canSpell_spelling done)
  refine ⟨pairs, old, ?_, respelled⟩
  rw [new, scan, toList_splice]
  rfl

namespace Pairs

variable {code out : String} (paired : Pairs code out replaced pairs)

include paired

theorem pairwise :
    pairs.Pairwise fun p q => p.1.start < q.1.start ∧ p.2.start < q.2.start := by
  refine List.Pairwise.and ?_ ?_
  · have ordered := (placed_scan code).pairwise
    rwa [← paired.old, pairwise_map] at ordered
  · have ordered := (placed_scan out).pairwise
    rwa [← paired.new, pairwise_map] at ordered

theorem mem_old (member : pair ∈ pairs) : pair.1 ∈ scan code :=
  paired.old ▸ mem_map_of_mem member

theorem mem_new (member : pair ∈ pairs) : pair.2 ∈ scan out :=
  paired.new ▸ mem_map_of_mem member

/-- The linked code has the calls of the code, one by one. -/
theorem forall₂_calls (literal : ∀ call ∈ calls code, ∃ s, call.argument = .literal s) :
    List.Forall₂ (Matched pairs) (calls code) (calls out) := by
  have same : ∀ pair ∈ pairs, SamePart pair.1 pair.2 := fun pair member =>
    (paired.respelled pair member).samePart
  have words : significant (scan code) =
      (pairs.filter fun pair => pair.1.isSignificant).map Prod.fst := by
    rw [← paired.old, significant, filter_map]
    rfl
  have words' : significant (scan out) =
      (pairs.filter fun pair => pair.1.isSignificant).map Prod.snd := by
    rw [← paired.new, significant, filter_map]
    refine congrArg _ (filter_congr fun pair member => ?_)
    exact (same pair member).isSignificant_eq
  rw [calls, words] at literal ⊢
  rw [calls, words']
  refine List.Forall₂.imp ?_ (forall₂_callsFrom none _ (by simp) ?_ literal)
  · rintro call call' ⟨pair, member, argument⟩
    exact ⟨pair, mem_of_mem_filter member, argument⟩
  · intro pair member
    exact same pair (mem_of_mem_filter member)

/-- Nothing but arguments was touched. -/
theorem withoutArguments_eq (literal : ∀ call ∈ calls code, ∃ s, call.argument = .literal s)
    (given : ∀ start text, replaced.lookup start = some text →
      ∃ call ∈ calls code, call.start = start) :
    withoutArguments out = withoutArguments code := by
  have matched := paired.forall₂_calls literal
  have literal' : ∀ call ∈ calls out, ∃ s, call.argument = .literal s := by
    have turned : List.Forall₂ (fun call' _ => (∃ s, call'.argument = .literal s) ∧ True)
        (calls out) (calls code) :=
      .flip (matched.imp fun _ _ ⟨_, _, _, _, literal⟩ => ⟨literal, trivial⟩)
    exact ((forall₂_and_left _ _).mp turned).1
  rw [Require.withoutArguments_eq literal, Require.withoutArguments_eq literal', ← paired.old,
    ← paired.new]
  refine concat_filter_eq (fun pair member => ?_) fun pair member kept => ?_
  · rw [any_start_eq paired.pairwise matched member]
  · rw [(paired.respelled pair member).text, spelling]
    cases found : replaced.lookup pair.1.start with
    | none => rfl
    | some text =>
      obtain ⟨call, inside, same⟩ := given _ _ found
      rw [Bool.not_eq_true', any_eq_false] at kept
      exact absurd (beq_iff_eq.mpr same) (kept call inside)

end Pairs

/-- **Linking is exact.** A linked code has as many calls as the code, in the same order, and all of
them have a literal argument. The argument of a call that means a module of the bundle is the quoted
id of this module, and that of a call that means a library is the one that was written. Without the
arguments of their calls, the linked code and the code are the same. -/
theorem link_exact {m : Module} {id : String} {ids : Ids} {externals : List String} {out : String}
    (linked : link m id ids externals = .ok out) :
    List.Forall₂ (Relinked m ids out) (calls m.code) (calls out) ∧
      withoutArguments out = withoutArguments m.code := by
  obtain ⟨replaced, done, rfl⟩ := link_eq_ok_iff.mp linked
  obtain ⟨pairs, paired⟩ := exists_pairs done
  have literal := exists_literal_of_replacements done
  have ordered := pairwise_callsFrom ((placed_scan m.code).pairwise.filter isSignificant) literal
  have links := links_of_replacements done ordered
  have matched := paired.forall₂_calls literal
  refine ⟨((forall₂_and_left _ _).mpr ⟨links, matched⟩).imp ?_, ?_⟩
  · rintro call call' ⟨links, pair, member, first, second, literal'⟩
    have text : call'.argumentText (splice replaced (scan m.code)) = spelling replaced pair.1 := by
      rw [argumentText_eq second (paired.mem_new member), (paired.respelled pair member).text]
    rw [spelling, ← first.start] at text
    refine ⟨literal', ?_⟩
    cases lookup : replaced.lookup call.start with
    | some own =>
      rw [lookup, Option.getD_some] at text
      rw [lookup] at links
      cases links with
      | file literal found means listed =>
        exact ⟨_, _, literal, found, by rw [means]; exact ⟨_, listed, text⟩⟩
    | none =>
      rw [lookup, Option.getD_none, ← argumentText_eq first (paired.mem_old member)] at text
      rw [lookup] at links
      cases links with
      | external literal found means => exact ⟨_, _, literal, found, by rw [means]; exact text⟩
  · refine paired.withoutArguments_eq literal fun start text found => ?_
    obtain ⟨call, member, same, _⟩ := exists_call_of_lookup done found
    exact ⟨call, member, same⟩

/-- A module that refers to another one in single quotes, and to a library in a template. -/
def quotingModule : Module where
  id := ⟨"/app/main.som"⟩
  source := ""
  code := "a = require('./lib'), b = require(\x60fs\x60) / 2"
  dependencies := [⟨"./lib", .file ⟨"/app/lib.som"⟩⟩, ⟨"fs", .external "fs"⟩]

theorem link_exact_quoting :
    let out := "a = require(\"./lib.som\"), b = require(\x60fs\x60) / 2"
    let ids : Ids := [(⟨"/app/lib.som"⟩, "./lib.som")]
    link quotingModule "./main.som" ids ["fs"] = .ok out ∧
      (calls out).map (argumentText out) = ["\"./lib.som\"", "\x60fs\x60"] ∧
      List.Forall₂ (Relinked quotingModule ids out) (calls quotingModule.code) (calls out) ∧
      withoutArguments out = withoutArguments quotingModule.code := by
  intro out ids
  have linked : link quotingModule "./main.som" ids ["fs"] = .ok out := by decide +kernel
  exact ⟨linked, by decide +kernel, link_exact linked⟩

end Tarkib.Bundle
