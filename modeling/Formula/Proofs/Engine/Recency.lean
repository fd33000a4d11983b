import Formula.Engine.History
import Formula.Engine.Recency
import Formula.Proofs.Distinct
import Formula.Proofs.Parse
import Mathlib.Data.List.Induction

/-!
# Which trees an engine remembers

The calls made to an engine alone say what it remembers: the texts asked for last, as many as there
is room for. Only a text that does not parse leaves no trace, and clearing leaves nothing.

## Main definitions

* `Engine.KeepsLatest` — what a next call meets, in terms of what was asked for and handed out.
* `Engine.Tracks` — what the engine remembers, in the same terms.

`Engine.Tracks.call` is the step and `Engine.tracks_after` the run. The main result is
`Engine.keepsLatest_of_recency`.
-/

namespace Formula

namespace Call

variable {calls : List Call} {c : Call} {text : String}

theorem recent_append (asked : c.text? = some text) :
    recent (calls ++ [c]) =
      if (Formula.parse text).isOk then text :: (recent calls).filter (· != text)
      else recent calls := by
  rw [recent, List.reverse_append, List.reverse_singleton, List.singleton_append,
    List.takeWhile_cons_of_pos (by rw [asked]; rfl), List.filterMap_cons_some asked,
    List.filter_cons]
  split
  · rw [List.eraseDups_cons, Distinct.eraseDups_filter]
    rfl
  · rfl

theorem recent_append_clear : recent (calls ++ [.clear]) = [] := by
  rw [recent, List.reverse_append, List.reverse_singleton, List.singleton_append,
    List.takeWhile_cons_of_neg (by exact Bool.false_ne_true)]
  rfl

theorem nodup_recent : (recent calls).Nodup :=
  Distinct.nodup_eraseDups _

theorem isOk_of_mem_recent (h : text ∈ recent calls) : (Formula.parse text).isOk = true :=
  (List.mem_filter.1 (List.mem_eraseDups.1 h)).2

end Call

/-- Only a hit is told in the words of a hit. -/
theorem Message.text_eq_hit_iff {m : Message} {s : String} :
    m.text = "Cache hit for expression: " ++ s ↔ m = .hit s := by
  constructor
  · intro same
    have first : m.text.toList.head? = some 'C' := by rw [same]; simp
    cases m with
    | hit s' =>
      change "Cache hit for expression: " ++ s' = "Cache hit for expression: " ++ s at same
      rw [(String.append_right_inj _).1 same]
    | tokenizing s' =>
      change ("Tokenizing expression: " ++ s').toList.head? = _ at first
      simp at first
    | built size =>
      change ("Built expression tree with " ++ toString size ++ " nodes").toList.head? = _ at first
      simp at first
    | evaluatingAll s' count =>
      change ("Evaluating " ++ s' ++ " against " ++ toString count ++ " contexts").toList.head? = _
        at first
      simp at first
  · rintro rfl
    rfl

namespace Engine

open Store

variable {σ : Type} [Store σ Shared]

/-- An engine `e` keeps the latest of the texts in `recent`, those that were asked for and parse, if
the latest ones are its entries, as many as there is room for, and any next call for one of them
gets the tree that is given last for it in `given`, the trees handed out before. What a call tells
shows this: a hit is told for these texts alone, tokenizing for all others alone, and a tree that
has been built for those of the others that parse. -/
structure KeepsLatest (view : Recency σ) (capacity : Nat) (recent : List String)
    (given : List (String × Shared)) (e : Engine σ) : Prop where
  size : view.size e.remembered = min capacity recent.length
  texts : (view.entries e.remembered).map Prod.fst = recent.take capacity
  hit_iff : ∀ c text, c.text? = some text →
    (.hit text ∈ (e.call c).messages ↔ text ∈ recent.take capacity)
  /-- A hit can be told by the wording. -/
  logged_iff : ∀ c text, c.text? = some text →
    ("Cache hit for expression: " ++ text ∈ (e.call c).messages.map Message.text ↔
      text ∈ recent.take capacity)
  tokenizing_iff : ∀ c text, c.text? = some text →
    (.tokenizing text ∈ (e.call c).messages ↔ text ∉ recent.take capacity)
  built_iff : ∀ c text size, c.text? = some text → (.built size ∈ (e.call c).messages ↔
    text ∉ recent.take capacity ∧ ∃ t, parse text = .ok t ∧ t.size = size)
  /-- A call for a text is a request for it, after which only evaluations are told. -/
  told : ∀ c text, c.text? = some text → (e.call c).engine = (e.request text).engine ∧
    ∃ later, (e.call c).messages = (e.request text).messages ++ later ∧
      ∀ m ∈ later, ∃ count, m = .evaluatingAll text count
  hit : ∀ text ∈ recent.take capacity, (e.request text).messages = [.hit text] ∧
    ∃ shared, given.reverse.lookup text = some shared ∧ (e.request text).result = .ok shared
  miss : ∀ text, text ∉ recent.take capacity →
    ∀ t, parse text = .ok t → (e.request text).messages = [.tokenizing text, .built t.size] ∧
      ∃ shared, shared.tree = t ∧ (e.request text).result = .ok shared ∧
        ∀ entry ∈ given, entry.2.serial ≠ shared.serial
  failed : ∀ text cause, parse text = .error cause →
    (e.request text).messages = [.tokenizing text] ∧
      (e.request text).result = .error cause ∧ (e.request text).engine = e

/-! ## Runs -/

section Runs

variable {start e : Engine σ} {calls : List Call} {c : Call} {text : String}

theorem after_append : start.after (calls ++ [c]) = ((start.after calls).call c).engine :=
  List.foldl_append

theorem given_append :
    start.given (calls ++ [c]) = start.given calls ++ ((start.after calls).given? c).toList := by
  induction calls generalizing start with
  | nil => exact List.append_nil _
  | cons first calls ih =>
    rw [List.cons_append, given, given, ih, List.append_assoc]
    rfl

/-- A call for a text is a request for it, after which only evaluations are told. -/
theorem call_of_text? (asked : c.text? = some text) :
    (e.call c).engine = (e.request text).engine ∧
      ∃ later, (e.call c).messages = (e.request text).messages ++ later ∧
        ∀ m ∈ later, ∃ count, m = .evaluatingAll text count := by
  cases c with
  | parse | evaluate =>
    cases asked
    exact ⟨rfl, [], (List.append_nil _).symm, nofun⟩
  | evaluateAll text contexts =>
    cases asked
    rw [call, evaluateAll]
    cases (e.request text).result with
    | error => exact ⟨rfl, [], (List.append_nil _).symm, nofun⟩
    | ok => exact ⟨rfl, _, rfl, fun m member => ⟨_, List.mem_singleton.1 member⟩⟩
  | clear => cases asked

/-- What is told of a call, other than evaluations, is told of the request. -/
theorem mem_messages_iff {m : Message} (asked : c.text? = some text)
    (other : ∀ count, m ≠ .evaluatingAll text count) :
    m ∈ (e.call c).messages ↔ m ∈ (e.request text).messages := by
  obtain ⟨-, later, messages, evaluations⟩ := call_of_text? (e := e) asked
  have early : m ∉ later := by
    intro member
    obtain ⟨count, same⟩ := evaluations m member
    exact other count same
  rw [messages, List.mem_append, or_iff_left early]

end Runs

/-! ## What is remembered -/

/-- The engine remembers the first of the texts that were asked for, each with the tree handed out
for it last, and no tree handed out has the number of one to come. -/
structure Tracks (view : Recency σ) (capacity : Nat) (recent : List String)
    (given : List (String × Shared)) (e : Engine σ) : Prop where
  capacity_eq : view.capacity e.remembered = capacity
  texts : (view.entries e.remembered).map Prod.fst = recent.take capacity
  latest : ∀ entry ∈ view.entries e.remembered, given.reverse.lookup entry.1 = some entry.2
  old : ∀ entry ∈ given, entry.2.serial < e.made

namespace Tracks

variable {view : Recency σ} {capacity : Nat} {recent : List String}
  {given : List (String × Shared)} {e : Engine σ} {text : String}

theorem size (h : Tracks view capacity recent given e) :
    view.size e.remembered = min capacity recent.length := by
  rw [view.size_eq, ← List.length_map, h.texts, List.length_take]

theorem exists_touch? (h : Tracks view capacity recent given e)
    (kept : text ∈ recent.take capacity) :
    ∃ shared next, touch? e.remembered text = some (shared, next) := by
  cases found : touch? e.remembered text with
  | none => exact absurd (h.texts ▸ kept) (view.missing found)
  | some hit => exact ⟨hit.1, hit.2, rfl⟩

theorem mem_of_touch? (h : Tracks view capacity recent given e) {shared : Shared} {next : σ}
    (found : touch? e.remembered text = some (shared, next)) :
    text ∈ recent.take capacity ∧ given.reverse.lookup text = some shared := by
  have inside := (view.found found).1
  exact ⟨h.texts ▸ List.mem_map_of_mem inside, h.latest _ inside⟩

theorem touch?_eq_none (h : Tracks view capacity recent given e)
    (gone : text ∉ recent.take capacity) : touch? e.remembered text = none := by
  cases found : touch? e.remembered text with
  | none => rfl
  | some hit => exact absurd (h.mem_of_touch? found).1 gone

theorem request_of_kept (h : Tracks view capacity recent given e)
    (kept : text ∈ recent.take capacity) :
    (e.request text).messages = [.hit text] ∧
      ∃ shared, given.reverse.lookup text = some shared ∧
        (e.request text).result = .ok shared := by
  obtain ⟨shared, next, found⟩ := h.exists_touch? kept
  rw [Engine.request, found]
  exact ⟨rfl, shared, (h.mem_of_touch? found).2, rfl⟩

theorem request_of_not_kept (h : Tracks view capacity recent given e)
    (gone : text ∉ recent.take capacity) {t : Tree} (parses : parse text = .ok t) :
    (e.request text).messages = [.tokenizing text, .built t.size] ∧
      ∃ shared, shared.tree = t ∧ (e.request text).result = .ok shared ∧
        ∀ entry ∈ given, entry.2.serial ≠ shared.serial := by
  rw [Engine.request, h.touch?_eq_none gone, parses]
  refine ⟨rfl, ⟨e.made, t⟩, rfl, rfl, fun entry member => ?_⟩
  exact Nat.ne_of_lt (h.old entry member)

theorem request_of_error (h : Tracks view capacity recent given e)
    (gone : text ∉ recent.take capacity) {cause : Error} (fails : parse text = .error cause) :
    (e.request text).messages = [.tokenizing text] ∧
      (e.request text).result = .error cause ∧ (e.request text).engine = e := by
  rw [Engine.request, h.touch?_eq_none gone, fails]
  exact ⟨rfl, rfl, rfl⟩

/-- A request tells a hit of a text that is kept. Otherwise it tells that it tokenizes the text, and
that it has built a tree if the text parses. -/
theorem mem_request_messages (h : Tracks view capacity recent given e) (text : String) :
    (.hit text ∈ (e.request text).messages ↔ text ∈ recent.take capacity) ∧
      (.tokenizing text ∈ (e.request text).messages ↔ text ∉ recent.take capacity) ∧
      ∀ size, .built size ∈ (e.request text).messages ↔
        text ∉ recent.take capacity ∧ ∃ t, parse text = .ok t ∧ t.size = size := by
  by_cases kept : text ∈ recent.take capacity
  · have messages := (h.request_of_kept kept).1
    simp [messages, kept]
  · cases parses : parse text with
    | ok t =>
      have messages := (h.request_of_not_kept kept parses).1
      simp [messages, kept, eq_comm]
    | error cause =>
      have messages := (h.request_of_error kept parses).1
      simp [messages, kept]

/-- An entry in front of the others has the text asked for last. -/
theorem map_cons_filter (h : Tracks view capacity recent given e) (text : String)
    (shared : Shared) :
    ((text, shared) :: (view.entries e.remembered).filter fun entry => entry.1 != text).map
        Prod.fst = text :: (recent.take capacity).filter (· != text) := by
  rw [List.map_cons, ← h.texts, List.filter_map]
  rfl

/-- The entries are handed-out trees still when one more is handed out and put in front. -/
theorem latest_cons (h : Tracks view capacity recent given e) {entries : List (String × Shared)}
    {shared : Shared} (entries_sub : ∀ entry ∈ entries, entry ∈
      (text, shared) :: (view.entries e.remembered).filter fun entry => entry.1 != text) :
    ∀ entry ∈ entries,
      (given ++ [(text, shared)]).reverse.lookup entry.1 = some entry.2 := by
  intro entry member
  rw [List.reverse_append, List.reverse_singleton, List.singleton_append, List.lookup_cons]
  rcases List.mem_cons.1 (entries_sub entry member) with rfl | member
  · rw [beq_self_eq_true]
  · obtain ⟨inside, other⟩ := List.mem_filter.1 member
    rw [beq_eq_false_iff_ne.2 (bne_iff_ne.1 other)]
    exact h.latest entry inside

/-- A request puts its text in front of the others, unless it does not parse. -/
theorem request (h : Tracks view capacity recent given e) (nodup : recent.Nodup)
    (parses : ∀ text ∈ recent, (parse text).isOk = true) (text : String) :
    Tracks view capacity
      (if (parse text).isOk then text :: recent.filter (· != text) else recent)
      (given ++ ((e.request text).result.toOption.map fun shared => (text, shared)).toList)
      (e.request text).engine := by
  rw [Engine.request]
  cases found : touch? e.remembered text with
  | some hit =>
    obtain ⟨shared, next⟩ := hit
    obtain ⟨inside, entries, capacity_eq⟩ := view.found found
    obtain ⟨kept, last⟩ := h.mem_of_touch? found
    rw [if_pos (parses text (List.mem_of_mem_take kept))]
    refine ⟨capacity_eq.trans h.capacity_eq, ?_, h.latest_cons fun entry => ?_, ?_⟩
    · -- the text was among the first ones, so the others are not as many as there is room for
      have fewer : ((recent.take capacity).filter (· != text)).length < capacity :=
        Nat.lt_of_lt_of_le
          (List.length_filter_lt_length_iff_exists.2 ⟨text, kept, by simp⟩)
          (List.length_take_le _ _)
      rw [entries, h.map_cons_filter, ← Distinct.take_cons_filter_take nodup]
      exact (List.take_of_length_le fewer).symm
    · exact fun member => entries ▸ member
    · intro entry member
      rcases List.mem_append.1 member with member | member
      · exact h.old entry member
      · obtain ⟨before, after, split, -⟩ := List.lookup_eq_some_iff.1 last
        obtain rfl := List.mem_singleton.1 member
        exact h.old _ (List.mem_reverse.1 (split ▸ by simp))
  | none =>
    cases parse text with
    | error cause => exact (List.append_nil given).symm ▸ h
    | ok t =>
      obtain ⟨entries, capacity_eq⟩ := view.inserted e.remembered text ⟨e.made, t⟩
      refine ⟨capacity_eq.trans h.capacity_eq, ?_, h.latest_cons fun entry member => ?_, ?_⟩
      · rw [entries, h.capacity_eq, List.map_take, h.map_cons_filter]
        exact Distinct.take_cons_filter_take nodup _ _
      · exact List.mem_of_mem_take (entries ▸ member)
      · intro entry member
        rcases List.mem_append.1 member with member | member
        · exact Nat.lt_succ_of_lt (h.old entry member)
        · obtain rfl := List.mem_singleton.1 member
          exact Nat.lt_succ_self e.made

theorem clear (h : Tracks view capacity recent given e) :
    Tracks view capacity [] given e.clear := by
  obtain ⟨entries, capacity_eq⟩ := view.cleared e.remembered
  refine ⟨capacity_eq.trans h.capacity_eq, ?_, ?_, h.old⟩
  · exact (congrArg (List.map Prod.fst) entries).trans List.take_nil.symm
  · exact fun entry member => nomatch (congrArg (entry ∈ ·) entries).mp member

/-- What the engine remembers after one more call is what the calls say. -/
theorem call {calls : List Call} (h : Tracks view capacity (Call.recent calls) given e) (c : Call) :
    Tracks view capacity (Call.recent (calls ++ [c])) (given ++ (e.given? c).toList)
      (e.call c).engine := by
  cases asked : c.text? with
  | some text =>
    rw [Call.recent_append asked, given?, asked, (call_of_text? asked).1]
    exact h.request Call.nodup_recent (fun _ => Call.isOk_of_mem_recent) text
  | none =>
    cases c with
    | clear =>
      rw [Call.recent_append_clear, given?, asked]
      exact (List.append_nil given).symm ▸ h.clear
    | parse | evaluate | evaluateAll => cases asked

theorem keepsLatest (h : Tracks view capacity recent given e)
    (parses : ∀ text ∈ recent, (parse text).isOk = true) :
    KeepsLatest view capacity recent given e := by
  have hit_iff : ∀ c text, c.text? = some text →
      (.hit text ∈ (e.call c).messages ↔ text ∈ recent.take capacity) := fun c text asked =>
    (mem_messages_iff asked (by simp)).trans (h.mem_request_messages text).1
  refine ⟨h.size, h.texts, hit_iff, fun c text asked => ?logged, fun c text asked => ?tokenizing,
    fun c text size asked => ?built, fun c text => call_of_text?, fun text => h.request_of_kept,
    fun text gone t => h.request_of_not_kept gone, fun text cause fails => ?failed⟩
  case logged =>
    simp only [List.mem_map, Message.text_eq_hit_iff, exists_eq_right]
    exact hit_iff c text asked
  case tokenizing =>
    exact (mem_messages_iff asked (by simp)).trans (h.mem_request_messages text).2.1
  case built =>
    exact (mem_messages_iff asked (by simp)).trans ((h.mem_request_messages text).2.2 size)
  case failed =>
    refine h.request_of_error (fun kept => ?_) fails
    have ok := parses text (List.mem_of_mem_take kept)
    rw [fails] at ok
    cases ok

end Tracks

/-! ## Engines that start with nothing -/

section

variable {view : Recency σ} {capacity : Nat} (start : Engine σ)

theorem tracks_after (room : view.capacity start.remembered = capacity)
    (empty : view.entries start.remembered = []) (calls : List Call) :
    Tracks view capacity (Call.recent calls) (start.given calls) (start.after calls) := by
  induction calls using List.reverseRecOn with
  | nil =>
    refine ⟨room, ?_, ?_, nofun⟩
    · exact (congrArg (List.map Prod.fst) empty).trans List.take_nil.symm
    · exact fun entry member => nomatch (congrArg (entry ∈ ·) empty).mp member
  | append_singleton calls c ih =>
    rw [after_append, given_append]
    exact ih.call c

variable (view) in
theorem keepsLatest_after (room : view.capacity start.remembered = capacity)
    (empty : view.entries start.remembered = []) (calls : List Call) :
    KeepsLatest view capacity (Call.recent calls) (start.given calls) (start.after calls) :=
  (tracks_after start room empty calls).keepsLatest fun _ => Call.isOk_of_mem_recent

end

/-- An engine remembers the texts that were asked for last and parse, as many as it has room for: a
next call for a text finds its tree, the one handed out for it last, exactly if it is among these,
and otherwise parses it, which makes a new tree. This holds of any store that keeps what was used
last, there being none without room, and so of the store of the most recent entries. -/
theorem keepsLatest_of_recency :
    (∀ (σ : Type) [Store σ Shared] (view : Recency σ) (make : Nat → σ),
      (∀ capacity ≠ 0, view.entries (make capacity) = [] ∧
        view.capacity (make capacity) = capacity) →
      ∀ capacity calls,
        let start : Engine (Option σ) := ofStore (Store.ofCapacity make capacity)
        KeepsLatest view.option capacity (Call.recent calls) (start.given calls)
          (start.after calls)) ∧
    ∀ capacity calls,
      let start := ofCapacity capacity
      KeepsLatest Recent.recency capacity (Call.recent calls) (start.given calls)
        (start.after calls) := by
  refine ⟨fun σ _ view make empty capacity calls => ?_,
    fun capacity calls => keepsLatest_after Recent.recency (ofCapacity capacity) rfl rfl calls⟩
  by_cases none : capacity = 0
  · subst none
    exact keepsLatest_after view.option (ofStore (Store.ofCapacity make 0)) rfl rfl calls
  · obtain ⟨entries, room⟩ := empty capacity none
    rw [show Store.ofCapacity make capacity = some (make capacity) from if_neg none]
    exact keepsLatest_after view.option (ofStore (some (make capacity))) room entries calls

/-- With room for a single tree, `y` is found again and `x` is not, which `y` took the place of. The
empty text does not parse and leaves no trace. -/
theorem keepsLatest_single :
    let start := ofStore (Store.ofCapacity (Recent.empty (α := Shared)) 1)
    let calls := [.parse "x", .evaluate "y" fun _ => none, .parse ""]
    (∀ capacity ≠ 0, Recent.recency.entries (Recent.empty (α := Shared) capacity) = [] ∧
        Recent.recency.capacity (Recent.empty (α := Shared) capacity) = capacity) ∧
      KeepsLatest Recent.recency.option 1 (Call.recent calls) (start.given calls)
        (start.after calls) ∧
      Call.recent calls = ["y", "x"] ∧
      .hit "y" ∈ ((start.after calls).call (.parse "y")).messages ∧
      .tokenizing "y" ∉ ((start.after calls).call (.parse "y")).messages ∧
      .hit "x" ∉ ((start.after calls).call (.parse "x")).messages ∧
      .tokenizing "x" ∈ ((start.after calls).call (.parse "x")).messages ∧
      .built 2 ∈ ((start.after calls).call (.parse "x")).messages := by
  intro start calls
  have empty : ∀ capacity ≠ 0,
      Recent.recency.entries (Recent.empty (α := Shared) capacity) = [] ∧
        Recent.recency.capacity (Recent.empty (α := Shared) capacity) = capacity :=
    fun _ _ => ⟨rfl, rfl⟩
  have keeps := keepsLatest_of_recency.1 (Recent Shared) Recent.recency Recent.empty empty 1 calls
  have x : parse "x" = .ok (.node .nil ⟨0, .group⟩ (.leaf ⟨1, .var "x"⟩)) := by
    rw [parse, show tokenize "x" = .ok [⟨.name, "x"⟩] from
      Token.tokenizeChars_of_next? rfl Token.tokenizeChars_nil]
    rfl
  have y : (parse "y").isOk = true := by
    rw [parse, show tokenize "y" = .ok [⟨.name, "y"⟩] from
      Token.tokenizeChars_of_next? rfl Token.tokenizeChars_nil]
    rfl
  have nothing : (parse "").isOk = false := by
    rw [parse, show tokenize "" = .ok [] from Token.tokenizeChars_nil]
    rfl
  have recent : Call.recent calls = ["y", "x"] := by
    have asked : (calls.reverse.takeWhile fun c => c.text?.isSome).filterMap Call.text? =
        ["", "y", "x"] := rfl
    rw [Call.recent, asked]
    simp only [List.filter, x, y, nothing]
    rfl
  have kept : "y" ∈ (Call.recent calls).take 1 := recent ▸ by decide
  have gone : "x" ∉ (Call.recent calls).take 1 := recent ▸ by decide
  refine ⟨empty, keeps, recent, (keeps.hit_iff (.parse "y") "y" rfl).2 kept, ?_, ?_,
    (keeps.tokenizing_iff (.parse "x") "x" rfl).2 gone,
    (keeps.built_iff (.parse "x") "x" 2 rfl).2 ⟨gone, _, x, rfl⟩⟩
  · exact fun told => (keeps.tokenizing_iff (.parse "y") "y" rfl).1 told kept
  · exact fun told => gone ((keeps.hit_iff (.parse "x") "x" rfl).1 told)

end Engine

end Formula
