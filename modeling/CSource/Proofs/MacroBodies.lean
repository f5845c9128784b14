import CSource.Proofs.Standing

/-!
What comes to stand in a macro: no directive is put into it, and no type is declared in it. The text of a macro can
contain directives all the same, those in the bodies of its statements, lambdas and functions, which take them as any
function body does.
-/

namespace CSource

def Event.declares (s : ScopeRef) (e : Event) : Bool :=
  match e.call with
  | .putTag q _ _ => q.scope == s && e.result.isOk
  | _ => false

theorem Event.declaresIff {s : ScopeRef} {e : Event} : e.declares s = true ↔
    ∃ q taken call answer, e.call = .putTag q taken call ∧ q.scope = s ∧ e.result = .ok answer := by
  obtain ⟨n, call, result⟩ := e
  unfold declares
  cases call with
  | putTag q taken call => cases result <;> simp [Except.isOk, Except.toBool, taken]
  | _ => simp

namespace World

variable {p : Policy} {es : List Event} {w v : World} {s : ScopeRef}

def TakesTypes (w : World) (s : ScopeRef) : Prop :=
  ∃ a m, w.session.arenas[s.arena]? = some a ∧ a.node s = .ok m ∧ m.kind ≠ .macroBody

theorem TakesTypes.later (takes : w.TakesTypes s) (sound : w.Sound p) (run : Run p w v) : v.TakesTypes s := by
  obtain ⟨a, m, here, found, other⟩ := takes
  obtain ⟨b, there, precedes⟩ := run.precedes sound here
  obtain ⟨k, now, follows⟩ := precedes.node found
  exact ⟨b, k, there, now, (ScopeNode.Follows.kind follows).symm ▸ other⟩

theorem History.declared (history : w.History p es) (tight : p.looseScopes = false) (fixed : p.recast = false) :
    ∀ e ∈ es, e.declares s = true → w.TakesTypes s := by
  induction history with
  | start => exact List.forall_mem_nil _
  | newArena before d ih =>
    exact fun e mem asked => (ih e mem asked).later before.reachable.sound (.single (.newArena d))
  | ask before held ran ih =>
    exact fun e mem asked => (ih e mem asked).later before.reachable.sound (.single (.ask held ran))
  | @call es w n call result after before allowed ran ih =>
    intro e mem asked
    have sound := before.reachable.sound
    refine TakesTypes.later ?_ sound (.single (.call allowed ran))
    rcases List.mem_append.mp mem with old | new
    · exact ih e old asked
    · cases List.mem_singleton.mp new
      obtain ⟨q, taken, tag, answer, rfl, rfl, rfl⟩ := Event.declaresIff.mp asked
      obtain ⟨a, b, here, rfl, ends⟩ := Session.stepCases ran
      obtain ⟨_, _, _, _, _, _, found, _⟩ := sound.placing allowed here rfl ends
      have number := (nodeOwn found).trans (sound.numbered n a here)
      have accepted := sound.placeKind tight fixed allowed here (q := q) (List.mem_cons_self ..) found
      refine ⟨a, _, by rw [number]; exact here, found, fun same => ?_⟩
      rw [same] at accepted
      exact absurd accepted (acceptsNoMacro taken)

end World

section Below

variable {a : Arena} {r k : NodeRef} {m : ScopeRef} {entries : List Entry}

theorem bodiesLow (other : r.category ≠ .directive) : ∀ body ∈ a.bodiesOf r, body.kind ≠ .topLevel := by
  intro body mem
  unfold Arena.bodiesOf at mem
  split at mem
  · rename_i n _
    obtain ⟨c, arena, index⟩ := r
    cases c with
    | directive => exact absurd rfl other
    | scope => contradiction
    | type =>
      cases n with
      | aggregate data =>
        obtain ⟨_, _, rfl⟩ := List.mem_map.mp mem
        nofun
      | _ => contradiction
    | decl | expr | stmt =>
      cases n <;> first
        | contradiction
        | exact functionBodiesKind mem ▸ nofun
  · contradiction

/-- Nothing of this node stands at top level. -/
structure Arena.Low (a : Arena) (r : NodeRef) : Prop where
  own : ∀ (s : ScopeRef) (n : ScopeNode), s.ref = r → a.node s = .ok n → n.kind ≠ .topLevel
  bodies : ∀ body ∈ a.bodiesOf r, body.kind ≠ .topLevel

theorem Arena.Low.below (low : a.Low r) (housed : a.Housed) (sorted : a.Sorted) (writes : a.Writes r k) : a.Low k where
  own s n same found := by
    subst same
    obtain ⟨body, mem, same⟩ := scopeWritten writes rfl
    cases refInjective same
    obtain ⟨_, kept⟩ := housed.kept r body mem
    cases Except.ok.inj (found.symm.trans kept)
    exact low.bodies body mem
  bodies := by
    by_cases directive : k.category = .directive
    · obtain ⟨d, rfl⟩ : ∃ d : DirectiveRef, d.ref = k := ⟨⟨k.arena, k.index⟩, by rw [Handle.ref, ← directive]⟩
      obtain ⟨s, n, rfl, found, listed⟩ := directiveWritten writes
      obtain ⟨x, stored, takes⟩ := sorted s n d found listed
      rw [Arena.bodiesOfFound stored]
      have inner := low.own s n rfl found
      obtain ⟨kind, _⟩ := n
      cases takes with
      | atTop => exact absurd rfl inner
      | inside _ low => exact low
    · exact bodiesLow directive

theorem Arena.Low.shown (low : a.Low r) (housed : a.Housed) (sorted : a.Sorted) (shows : a.Shows r k) : a.Low k := by
  induction shows with
  | refl => exact low
  | tail _ writes ih => exact ih.below housed sorted writes

theorem macroLow (body : a.node m = .ok ⟨.macroBody, entries⟩) : a.Low m.ref where
  own s n same found := by
    cases refInjective same
    cases Except.ok.inj (body.symm.trans found)
    nofun
  bodies := bodiesLow nofun

theorem Arena.Sorted.inFunction (sorted : a.Sorted) {s : ScopeRef} {n : ScopeNode} (low : n.kind ≠ .topLevel)
    (found : a.node s = .ok n) {d : DirectiveRef} (listed : .directive d ∈ n.entries) : n.kind = .function := by
  obtain ⟨_, _, takes⟩ := sorted s n d found listed
  generalize n.kind = kind at takes low
  cases takes with
  | atTop => exact absurd rfl low
  | inside => rfl

end Below

/-- As long as scopes are filled by the calls that make what they put there, a macro lists no directive, and no type is
declared in it. What its text contains of directives stands in scopes of functions, and what it contains of types that
were declared in a scope stands in those or in aggregates. -/
theorem directivesBelowMacros {p : Policy} {es : List Event} {w : World} (history : w.History p es)
    (typed : ∀ e ∈ es, e.call.isTyped = true) (tight : p.looseScopes = false) (fixed : p.recast = false)
    {n : Nat} {a : Arena} (here : w.session.arenas[n]? = some a) {m : ScopeRef} {entries : List Entry}
    (body : a.node m = .ok ⟨.macroBody, entries⟩) :
    (∀ d, .directive d ∉ entries) ∧ (∀ e ∈ es, e.declares m = false) ∧
    (∀ (s : ScopeRef) (k : ScopeNode), a.Shows m.ref s.ref → a.node s = .ok k →
      k.kind ≠ .topLevel ∧ (∀ d, .directive d ∈ k.entries → k.kind = .function) ∧
      ∀ e ∈ es, e.declares s = true → k.kind = .function ∨ ∃ parent labeled, k.kind = .members parent labeled) ∧
    ∀ d : DirectiveRef, a.Shows m.ref d.ref ↔
      ∃ (s : ScopeRef) (k : ScopeNode), a.Shows m.ref s.ref ∧ a.node s = .ok k ∧ k.kind = .function ∧
        .directive d ∈ k.entries := by
  have reachable := history.reachable
  have sorted := history.sorted typed tight fixed n a here
  have low {r : NodeRef} (shows : a.Shows m.ref r) : a.Low r :=
    (macroLow body).shown (reachable.housed n a here) sorted shows
  have declared {e : Event} {s : ScopeRef} {k : ScopeNode} (mem : e ∈ es) (asked : e.declares s = true)
      (found : a.node s = .ok k) : k.kind ≠ .macroBody := by
    obtain ⟨b, l, there, stored, other⟩ := history.declared tight fixed e mem asked
    have number := (nodeOwn found).trans (reachable.sound.numbered n a here)
    rw [number, here] at there
    cases Option.some.inj there
    cases Except.ok.inj (found.symm.trans stored)
    exact other
  refine ⟨fun d listed => ?_, fun e mem => ?_, fun s k shows found => ?_, fun d => ⟨fun shows => ?_, ?_⟩⟩
  · exact nomatch sorted.inFunction (n := ⟨.macroBody, entries⟩) nofun body listed
  · exact Bool.eq_false_iff.mpr fun asked => declared mem asked body rfl
  · have inner := (low shows).own s k rfl found
    refine ⟨inner, fun d listed => sorted.inFunction inner found listed, fun e mem asked => ?_⟩
    have other := declared mem asked found
    cases kind : k.kind with
    | topLevel => exact absurd kind inner
    | macroBody => exact absurd kind other
    | function => exact .inl rfl
    | members parent labeled => exact .inr ⟨parent, labeled, rfl⟩
  · rcases shows.cases_tail with same | ⟨r, shows, writes⟩
    · cases congrArg NodeRef.category same
    · obtain ⟨s, k, rfl, found, listed⟩ := directiveWritten writes
      exact ⟨s, k, shows, found, sorted.inFunction ((low shows).own s k rfl found) found listed, listed⟩
  · rintro ⟨s, k, shows, found, _, listed⟩
    exact shows.tail (entryWritten (e := .directive d) found listed)

namespace World

theorem topLevelBranch : PlaceKind.topLevel.branch? = some .topLevel := rfl

def bareMacro : World :=
  ((empty.grow .c).act 0 .newTopLevel).act 0
    (.putDirective ⟨.topLevel, ⟨0, 0⟩⟩ .topLevel topLevelBranch (.defineFunction "M" []))

def bareMacroOpened : World := ⟨bareMacro.session, bareMacro.held ++ issuedBy (.ok (.place ⟨.macroBody, ⟨0, 1⟩⟩))⟩

/-- The macro has a block, and the block an inclusion. -/
def macroIncluding : World :=
  (bareMacroOpened.act 0 (.putStmt ⟨.macroBody, ⟨0, 1⟩⟩ rfl .block)).act 0
    (.putDirective ⟨.function, ⟨0, 2⟩⟩ .function rfl (.includeFile "a.h" false))

def MadeTyped (p : Policy) (w : World) : Prop := ∃ es, w.History p es ∧ ∀ e ∈ es, e.call.isTyped = true

theorem MadeTyped.act {p : Policy} {w : World} (made : w.MadeTyped p) {n : Nat} {call : Call}
    (allowed : w.Allows p n call) (typed : call.isTyped = true) : (w.act n call).MadeTyped p := by
  obtain ⟨es, history, earlier⟩ := made
  unfold World.act
  cases ran : w.session.step n call with
  | none => exact ⟨es, history, earlier⟩
  | some done =>
    exact ⟨_, history.call allowed ran, List.forall_mem_append.mpr ⟨earlier, List.forall_mem_singleton.mpr typed⟩⟩

theorem bareMacroMade : bareMacro.MadeTyped .strict := by
  refine .act (.act ⟨[], .newArena .start .c, List.forall_mem_nil _⟩ ?_ rfl) ?_ rfl
  all_goals exact allowsHeld (by decide) rfl (by decide)

theorem bareMacroOpenedMade : bareMacroOpened.MadeTyped .strict := by
  obtain ⟨es, history, typed⟩ := bareMacroMade
  refine ⟨es, history.ask (n := 0) (q := .macroScope ⟨⟨0, 0⟩⟩) ?_ rfl, typed⟩
  exact List.forall_mem_singleton.mpr (.issued (by decide))

theorem macroIncludingMade : macroIncluding.MadeTyped .strict := by
  refine .act (.act bareMacroOpenedMade ?_ rfl) ?_ rfl
  all_goals exact allowsHeld (by decide) rfl (by decide)

end World

theorem macroIncludes : ∃ es a entries, World.macroIncluding.History .strict es ∧
    (∀ e ∈ es, e.call.isTyped = true) ∧ World.macroIncluding.session.arenas[0]? = some a ∧
    a.node (⟨0, 1⟩ : ScopeRef) = .ok ⟨.macroBody, entries⟩ ∧ (∀ d, .directive d ∉ entries) ∧
    a.render (⟨0, 0⟩ : DirectiveRef).ref = .ok "\n#define M() \x7b\\\n#include \"a.h\"\\\n\x7d\n" ∧
    a.Shows (⟨0, 1⟩ : ScopeRef).ref (⟨0, 1⟩ : DirectiveRef).ref := by
  obtain ⟨es, history, typed⟩ := World.macroIncludingMade
  obtain ⟨a, here⟩ : ∃ a, World.macroIncluding.session.arenas[0]? = some a := ⟨_, rfl⟩
  obtain ⟨body, block, owned, text⟩ : a.node (⟨0, 1⟩ : ScopeRef) = .ok ⟨.macroBody, [.stmt ⟨0, 0⟩]⟩ ∧
      a.node (⟨0, 0⟩ : StmtRef) = .ok (.block ⟨0, 2⟩) ∧
      a.node (⟨0, 2⟩ : ScopeRef) = .ok ⟨.function, [.directive ⟨0, 1⟩]⟩ ∧
      a.render (⟨0, 0⟩ : DirectiveRef).ref = .ok "\n#define M() \x7b\\\n#include \"a.h\"\\\n\x7d\n" := by
    cases here
    exact ⟨rfl, rfl, rfl, rfl⟩
  obtain ⟨bare, _, _, shown⟩ := directivesBelowMacros history typed rfl rfl here body
  have inner : a.Writes (⟨0, 0⟩ : StmtRef).ref (⟨0, 2⟩ : ScopeRef).ref := by
    unfold Arena.Writes
    rw [Arena.piecesOf block]
    exact List.mem_cons_of_mem _ (List.mem_cons_self ..)
  have below : a.Shows (⟨0, 1⟩ : ScopeRef).ref (⟨0, 2⟩ : ScopeRef).ref :=
    .tail (.single (entryWritten body (List.mem_cons_self ..))) inner
  exact ⟨es, a, _, history, typed, here, body, bare, text,
    (shown ⟨0, 1⟩).mpr ⟨_, _, below, owned, rfl, List.mem_cons_self ..⟩⟩

end CSource
