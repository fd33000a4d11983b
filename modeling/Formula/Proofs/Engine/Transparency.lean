import Formula.Engine.Call
import Formula.Proofs.Parse

/-!
# Remembering does not show in answers

An engine answers as if it parsed every text anew, whatever its store forgets, as long as the store
gives back nothing but what was put in last. The store of the most recent entries is of this kind.

## Main definitions

* `Engine.Faithful` — every tree that the engine has put into its store is the tree of its text.

`Engine.Faithful.request` is the step, for the one use of the store that all calls share.
`Recent.honest_empty` is what the engine relies on. The main result is `Engine.run_eq_answers`.
-/

namespace Formula

/-! ## The store of the most recent entries -/

namespace Recent

open Store

variable {α : Type}

theorem mem_others {r : Recent α} {key : String} {entry : String × α} :
    entry ∈ r.others key ↔ entry ∈ r.entries ∧ entry.1 ≠ key := by
  simp [others]

/-- The entries are among the values that were put in last. -/
theorem last_of_mem {capacity : Nat} {r : Recent α} {last : String → Option α}
    (written : Written (empty capacity) r last) :
    ∀ entry ∈ r.entries, last entry.1 = some entry.2 := by
  induction written with
  | start => exact fun entry member => nomatch member
  | @touch r next last key a _ found ih =>
    obtain ⟨inside, same, -⟩ := touch?_eq_some found
    intro entry member
    rw [same] at member
    rcases List.mem_cons.1 member with rfl | member
    · exact ih _ inside
    · exact ih _ (mem_others.1 member).1
  | @insert r last key a _ ih =>
    intro entry member
    rcases List.mem_cons.1 (List.mem_of_mem_take member) with rfl | member
    · exact if_pos rfl
    · obtain ⟨inside, other⟩ := mem_others.1 member
      exact (if_neg other).trans (ih _ inside)
  | clear => exact fun entry member => nomatch member

/-- Keeping the most recent entries only, a store never gives back an outdated value. -/
theorem honest_empty (capacity : Nat) : Honest (empty capacity : Recent α) :=
  fun _ _ _ _ _ written found => last_of_mem written _ (touch?_eq_some found).1

end Recent

/-! ## Engines -/

namespace Engine

open Store

variable {σ : Type} [Store σ Shared] {start : σ} {e : Engine σ}

/-- What the engine has put into its store, which was `start` once, are the trees of their texts. -/
def Faithful (start : σ) (e : Engine σ) : Prop :=
  ∃ last, Written start e.remembered last ∧
    ∀ text shared, last text = some shared → parse text = .ok shared.tree

theorem faithful_ofStore (start : σ) : Faithful start (.ofStore start) :=
  ⟨_, .start, nofun⟩

/-- A request is answered by parsing, and leaves the engine faithful. -/
theorem Faithful.request (h : Faithful start e) (honest : Honest start) (text : String) :
    (e.request text).result.map Shared.tree = parse text ∧
      Faithful start (e.request text).engine := by
  obtain ⟨last, written, trees⟩ := h
  rw [Engine.request]
  cases found : touch? e.remembered text with
  | some hit =>
    obtain ⟨shared, remembered⟩ := hit
    have parsed := trees text shared (honest _ _ _ _ _ written found)
    exact ⟨parsed.symm, last, written.touch found, trees⟩
  | none =>
    cases parsed : parse text with
    | error cause => exact ⟨rfl, last, written, trees⟩
    | ok t =>
      refine ⟨rfl, _, written.insert text ⟨e.made, t⟩, ?_⟩
      intro other shared put
      split at put
      · next same =>
        cases put
        rw [same, parsed]
      · exact trees other shared put

theorem Faithful.evaluate (h : Faithful start e) (honest : Honest start) (text : String)
    (bindings : Bindings) : (e.evaluate text bindings).result = Formula.evaluate text bindings := by
  rw [Engine.evaluate, Formula.evaluate, ← (h.request honest text).1]
  cases (e.request text).result <;> rfl

theorem Faithful.evaluateAll (h : Faithful start e) (honest : Honest start) (text : String)
    (contexts : List Bindings) :
    (e.evaluateAll text contexts).result =
        (parse text).map (fun t => contexts.map fun bindings => t.evaluate bindings) ∧
      (e.evaluateAll text contexts).engine = (e.request text).engine := by
  rw [Engine.evaluateAll, ← (h.request honest text).1]
  cases same : (e.request text).result <;> exact ⟨rfl, rfl⟩

/-- Every call is answered as without an engine, and leaves the engine faithful. -/
theorem Faithful.call (h : Faithful start e) (honest : Honest start) (c : Call) :
    (e.call c).result = c.answer ∧ Faithful start (e.call c).engine := by
  cases c with
  | parse text =>
    obtain ⟨same, faithful⟩ := h.request honest text
    exact ⟨congrArg Call.Answer.tree same, faithful⟩
  | evaluate text bindings =>
    exact ⟨congrArg Call.Answer.value (h.evaluate honest text bindings), (h.request honest text).2⟩
  | evaluateAll text contexts =>
    obtain ⟨same, engine⟩ := h.evaluateAll honest text contexts
    refine ⟨congrArg Call.Answer.values same, ?_⟩
    exact (congrArg (Faithful start) engine).mpr (h.request honest text).2
  | clear =>
    obtain ⟨last, written, trees⟩ := h
    exact ⟨rfl, last, written.clear, trees⟩

theorem Faithful.run (h : Faithful start e) (honest : Honest start) (calls : List Call) :
    e.run calls = calls.map Call.answer := by
  induction calls generalizing e with
  | nil => rfl
  | cons c calls ih =>
    obtain ⟨same, faithful⟩ := h.call honest c
    rw [Engine.run, List.map_cons, same, ih faithful]

/-- What an engine remembers shows in none of its answers: with any store that gives back nothing
but what was put in last, and so with one of any capacity for the most recent trees, every call of
every run is answered as if its text were parsed anew. -/
theorem run_eq_answers :
    (∀ (σ : Type) [Store σ Shared] (start : σ), Honest start →
      ∀ calls, (ofStore start).run calls = calls.map Call.answer) ∧
    ∀ capacity calls, (ofCapacity capacity).run calls = calls.map Call.answer :=
  ⟨fun _ _ start honest => (faithful_ofStore start).run honest,
    fun capacity => (faithful_ofStore _).run (Recent.honest_empty capacity)⟩

/-- With room for a single tree, `x` is found again at first, and then makes room for `y`. -/
theorem run_eq_answers_single :
    Honest (Recent.empty 1 : Recent Shared) ∧
      (ofStore (Recent.empty 1)).run
          [.parse "x", .evaluate "x" fun _ => none, .parse "y", .parse "x"] =
        [.tree (.ok (.node .nil ⟨0, .group⟩ (.leaf ⟨1, .var "x"⟩))),
          .value (.error (.eval (.undefinedVariable "x"))),
          .tree (.ok (.node .nil ⟨0, .group⟩ (.leaf ⟨1, .var "y"⟩))),
          .tree (.ok (.node .nil ⟨0, .group⟩ (.leaf ⟨1, .var "x"⟩)))] := by
  have x : parse "x" = .ok (.node .nil ⟨0, .group⟩ (.leaf ⟨1, .var "x"⟩)) :=
    parse_eq_ok_iff.2
      ⟨[⟨.name, "x"⟩], Token.tokenizeChars_of_next? rfl Token.tokenizeChars_nil, rfl⟩
  have y : parse "y" = .ok (.node .nil ⟨0, .group⟩ (.leaf ⟨1, .var "y"⟩)) :=
    parse_eq_ok_iff.2
      ⟨[⟨.name, "y"⟩], Token.tokenizeChars_of_next? rfl Token.tokenizeChars_nil, rfl⟩
  refine ⟨Recent.honest_empty 1, (run_eq_answers.1 _ _ (Recent.honest_empty 1) _).trans ?_⟩
  simp only [List.map_cons, List.map_nil, Call.answer, Formula.evaluate, x, y]
  rfl

end Engine

end Formula
