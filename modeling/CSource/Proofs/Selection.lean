import CSource.Proofs.Contents
import CSource.Proofs.Inclusion
import CSource.Proofs.Writing

/-!
Conditionals select. The lines that a preprocessor keeps of the text of a conditional are those of the branch that is
selected, because every marker stands on a line of its own whatever the branches are made of, and the markers of the
conditionals in a branch pair up within it.
-/

namespace CSource

open Inclusion Render Pieces

namespace Condition

def text (a : Arena) : Condition → Option String
  | holds cond => a.textOf cond.ref
  | isDefined name | isUndefined name => some name

def met (a : Arena) (v : Valuation) : Condition → Bool
  | holds cond => (a.textOf cond.ref).any v.holds
  | isDefined name => v.defined name
  | isUndefined name => !v.defined name

end Condition

namespace Conditional

def conditions (data : Conditional) : List Condition := data.head :: data.elifs.map (.holds ·.cond)

def OneLine (a : Arena) (data : Conditional) : Prop :=
  ∀ c ∈ data.conditions, ∀ text, c.text a = some text → '\n' ∉ text.toList

def selected (a : Arena) (v : Valuation) (data : Conditional) : Option ScopeRef :=
  if data.head.met a v then some data.body
  else ((data.elifs.find? fun e => (Condition.holds e.cond).met a v).map (·.body)).or data.otherwise

theorem selectedListed {a : Arena} {v : Valuation} {data : Conditional} {scope : ScopeRef}
    (chosen : data.selected a v = some scope) : scope ∈ data.scopes := by
  unfold selected at chosen
  split at chosen
  · simp [scopes, Option.some.inj chosen]
  · simp only [Option.or_eq_some_iff, Option.map_eq_some_iff] at chosen
    rcases chosen with ⟨e, listed, rfl⟩ | ⟨_, last⟩
    · have mem := List.mem_of_find?_eq_some listed
      simp only [scopes, List.mem_append, List.mem_cons, List.mem_map]
      exact .inl (.inr ⟨e, mem, rfl⟩)
    · simp [scopes, last]

end Conditional

/-- What the node writes itself cannot be taken for a marker, unless it is a conditional. -/
structure Arena.Tame (a : Arena) (r : NodeRef) : Prop where
  code : (∃ (d : DirectiveRef) (data : Conditional), d.ref = r ∧ a.node d = .ok (.conditional data) ∧ data.OneLine a) ∨
    ∀ text, .code text ∈ pieces a r → Unmarked text
  comments : ∀ c, a.commentsOf r = some c → Unmarked (commentText c.before) ∧ Unmarked (commentText c.after)

section Markers

variable {v : Valuation} (text : String)

theorem markerIf : marker v ("#if ".toList ++ text.toList) = some (.start (v.holds text)) := by
  show some (Marker.start (v.holds (String.ofList text.toList))) = _
  rw [String.ofList_toList]

theorem markerIfdef : marker v ("#ifdef ".toList ++ text.toList) = some (.start (v.defined text)) := by
  show some (Marker.start (v.defined (String.ofList text.toList))) = _
  rw [String.ofList_toList]

theorem markerIfndef : marker v ("#ifndef ".toList ++ text.toList) = some (.start (!v.defined text)) := by
  show some (Marker.start (!v.defined (String.ofList text.toList))) = _
  rw [String.ofList_toList]

theorem markerElif : marker v ("#elif ".toList ++ text.toList) = some (.again (v.holds text)) := by
  show some (Marker.again (v.holds (String.ofList text.toList))) = _
  rw [String.ofList_toList]

end Markers

section Steady

variable {a : Arena} {v : Valuation} {ps : Pieces} {text inner : String}

theorem steadySpelled (spelled : a.Spells ps text) (codes : ∀ s, .code s ∈ ps → Unmarked s)
    (children : ∀ k, .child k ∈ ps → ∀ t, a.render k = .ok t → Steady v t.toList) : Steady v text.toList := by
  induction spelled with
  | nil => exact steadyNil
  | code s spelled ih =>
    rw [String.toList_append]
    refine .append (steadyPlain (codes s (List.mem_cons_self ..))) (ih ?_ ?_)
    · exact fun s mem => codes s (List.mem_cons_of_mem _ mem)
    · exact fun k mem => children k (List.mem_cons_of_mem _ mem)
  | child written spelled ih =>
    rw [String.toList_append]
    refine .append (children _ (List.mem_cons_self ..) _ written) (ih ?_ ?_)
    · exact fun s mem => codes s (List.mem_cons_of_mem _ mem)
    · exact fun k mem => children k (List.mem_cons_of_mem _ mem)

theorem steadyCommented {r : NodeRef} (tame : a.Tame r) (steady : Steady v inner.toList) :
    Steady v (a.commented r inner).toList := by
  unfold Arena.commented
  cases found : a.commentsOf r with
  | none => exact steady
  | some c =>
    obtain ⟨before, after⟩ := tame.comments c found
    simp only [String.toList_append]
    exact (Steady.append (steadyPlain before) steady).append (steadyPlain after)

end Steady

section Branches

variable {a : Arena} {v : Valuation} {data : Conditional} {text : String}

def Arena.includedOf (a : Arena) (v : Valuation) (scope : ScopeRef) : List Line :=
  (a.textOf scope.ref).elim [] (included v)

def Conditional.laterArms (a : Arena) (v : Valuation) (elifs : List Elif) (otherwise : Option ScopeRef) :
    List (Bool × List Line) :=
  elifs.map (fun e => ((Condition.holds e.cond).met a v, a.includedOf v e.body)) ++
    otherwise.toList.map (true, a.includedOf v ·)

theorem chosenSelected : chosen ((data.head.met a v, a.includedOf v data.body) ::
    Conditional.laterArms a v data.elifs data.otherwise) = (data.selected a v).elim [] (a.includedOf v) := by
  have later (elifs : List Elif) : chosen (Conditional.laterArms a v elifs data.otherwise) =
      (((elifs.find? fun e => (Condition.holds e.cond).met a v).map (·.body)).or data.otherwise).elim []
        (a.includedOf v) := by
    induction elifs with
    | nil => cases data.otherwise <;> rfl
    | cons e elifs ih =>
      cases met : (Condition.holds e.cond).met a v
      · simpa [Conditional.laterArms, chosen, met] using ih
      · simp [Conditional.laterArms, chosen, met]
  unfold Conditional.selected
  cases met : data.head.met a v
  · simpa [chosen] using later data.elifs
  · simp [chosen]

theorem includedOfText {scope : ScopeRef} (rendered : a.render scope.ref = .ok text) :
    a.includedOf v scope = included v text := by
  simp [Arena.includedOf, Arena.textOfSome.mpr rendered]

theorem metHolds {cond : ExprRef} (rendered : a.render cond.ref = .ok text) :
    (Condition.holds cond).met a v = v.holds text := by
  simp [Condition.met, Arena.textOfSome.mpr rendered]

theorem closesSpelled {elifs : List Elif} {otherwise : Option ScopeRef}
    (single : ∀ e ∈ elifs, ∀ t, a.textOf e.cond.ref = some t → '\n' ∉ t.toList)
    (bodies : ∀ scope ∈ elifs.map (·.body) ++ otherwise.toList, ∀ t, a.render scope.ref = .ok t → Steady v t.toList)
    (spelled : a.Spells (elifs.flatMap elif ++
      (ofOption (fun scope => .code "\n#else\n" :: ofHandle scope) otherwise ++ ofText "\n#endif\n")) text) :
    Closes v text.toList (Conditional.laterArms a v elifs otherwise) := by
  induction elifs generalizing text with
  | nil =>
    cases otherwise with
    | none =>
      cases Arena.spellsOfText.mp spelled
      exact closesEnd
    | some scope =>
      obtain ⟨_, inside, rfl⟩ := Arena.spellsCode.mp spelled
      obtain ⟨body, _, rendered, last, rfl⟩ := Arena.spellsChild.mp inside
      cases Arena.spellsOfText.mp last
      have neutral := (bodies scope (by simp) body rendered).neutral
      rw [← includedOfText rendered] at neutral
      have oneLine : '\n' ∉ "#else".toList := by decide
      have again : marker v "#else".toList = some (.again true) := rfl
      simpa [Conditional.laterArms] using closesEnd.branch oneLine again neutral
  | cons e elifs ih =>
    rw [List.flatMap_cons, List.append_assoc] at spelled
    obtain ⟨_, marked, rfl⟩ := Arena.spellsCode.mp spelled
    obtain ⟨cond, _, asked, broken, rfl⟩ := Arena.spellsChild.mp marked
    obtain ⟨_, inside, rfl⟩ := Arena.spellsCode.mp broken
    obtain ⟨body, rest, rendered, later, rfl⟩ := Arena.spellsChild.mp inside
    have neutral := (bodies e.body (by simp) body rendered).neutral
    rw [← includedOfText rendered] at neutral
    have oneLine : '\n' ∉ "#elif ".toList ++ cond.toList := by
      simpa using single e (List.mem_cons_self ..) cond (Arena.textOfSome.mpr asked)
    have closes := (ih (fun e mem => single e (List.mem_cons_of_mem _ mem))
      (fun scope mem => bodies scope (List.mem_cons_of_mem _ mem)) later).branch oneLine (markerElif cond) neutral
    rw [← metHolds asked] at closes
    simpa [Conditional.laterArms] using closes

theorem headOpened {head : Condition} (single : ∀ t, head.text a = some t → '\n' ∉ t.toList)
    (spelled : a.Spells (conditionHead head) text) :
    ∃ mark, text.toList = '\n' :: mark ++ ['\n'] ∧ '\n' ∉ mark ∧ marker v mark = some (.start (head.met a v)) := by
  cases head with
  | holds cond =>
    obtain ⟨_, marked, rfl⟩ := Arena.spellsCode.mp spelled
    obtain ⟨asked, _, told, broken, rfl⟩ := Arena.spellsChild.mp marked
    cases Arena.spellsOfText.mp broken
    refine ⟨"#if ".toList ++ asked.toList, by simp, ?_, by rw [markerIf, metHolds told]⟩
    simpa using single asked (Arena.textOfSome.mpr told)
  | isDefined name =>
    have told : text = "\n#ifdef " ++ (name ++ "\n") := by
      simpa [conditionHead, Arena.spellsCode, Arena.spellsNil] using spelled
    exact ⟨"#ifdef ".toList ++ name.toList, by simp [told], by simpa using single name rfl, markerIfdef name⟩
  | isUndefined name =>
    have told : text = "\n#ifndef " ++ (name ++ "\n") := by
      simpa [conditionHead, Arena.spellsCode, Arena.spellsNil] using spelled
    exact ⟨"#ifndef ".toList ++ name.toList, by simp [told], by simpa using single name rfl, markerIfndef name⟩

theorem conditionalStands (single : data.OneLine a)
    (bodies : ∀ scope ∈ data.scopes, ∀ t, a.render scope.ref = .ok t → Steady v t.toList)
    (spelled : a.Spells (Render.conditional data) text) :
    Stands v text.toList ((data.selected a v).elim [] (a.includedOf v)) := by
  rw [← chosenSelected]
  rw [Render.conditional, List.append_assoc, List.append_assoc] at spelled
  obtain ⟨_, _, opened, inside, rfl⟩ := Arena.spellsAppend.mp spelled
  obtain ⟨body, rest, rendered, later, rfl⟩ := Arena.spellsChild.mp inside
  have neutral := (bodies data.body (by simp [Conditional.scopes]) body rendered).neutral
  rw [← includedOfText rendered] at neutral
  have closes : Closes v rest.toList (Conditional.laterArms a v data.elifs data.otherwise) := by
    refine closesSpelled (fun e mem t => ?_) (fun scope mem => ?_) later
    · exact single (.holds e.cond) (List.mem_cons_of_mem _ (List.mem_map_of_mem mem)) t
    · exact bodies scope (List.mem_cons_of_mem _ mem)
  obtain ⟨mark, split, oneLine, starts⟩ := headOpened (v := v) (single data.head (List.mem_cons_self ..)) opened
  simpa [split] using closes.group oneLine starts neutral

end Branches

section Below

variable {a : Arena} {v : Valuation} {r : NodeRef} {text : String}

theorem macroOwner {body : Body} (mem : body ∈ a.bodiesOf r) (continued : body.kind = .macroBody) :
    ∃ (d : DirectiveRef) (name : String) (ps : List String),
      d.ref = r ∧ a.node d = .ok (.defineFunction name ps body.scope) := by
  unfold Arena.bodiesOf at mem
  cases found : a.node r.handle with
  | error cause => simp [found] at mem
  | ok n =>
    rw [found] at mem
    obtain ⟨c, arena, index⟩ := r
    cases c with
    | type =>
      cases n with
      | aggregate data =>
        obtain ⟨region, _, rfl⟩ := List.mem_map.mp mem
        contradiction
      | _ => contradiction
    | decl | expr | stmt => cases n <;> first | contradiction | exact absurd continued (functionBodiesKind mem ▸ nofun)
    | directive =>
      cases n with
      | defineFunction name ps scope =>
        cases List.mem_singleton.mp mem
        exact ⟨⟨arena, index⟩, name, ps, rfl, found⟩
      | conditional data =>
        obtain ⟨scope, _, rfl⟩ := List.mem_map.mp mem
        cases branch : data.branch <;> simp [branch, BranchKind.scopeKind] at continued
      | namespaceBlock name scope =>
        cases List.mem_singleton.mp mem
        contradiction
      | _ => contradiction
    | scope => contradiction

theorem branchWritten {d : DirectiveRef} {data : Conditional} (found : a.node d = .ok (.conditional data))
    {scope : ScopeRef} (mem : scope ∈ data.scopes) : a.Writes d.ref scope.ref := by
  unfold Arena.Writes
  rw [Arena.piecesOf found, ← childStep]
  show _ ∈ steps (directive (.conditional data))
  rw [directiveSteps]
  refine List.mem_map_of_mem ?_
  simp only [Conditional.scopes, DirectiveNode.parts, List.mem_append, List.mem_cons, List.mem_map, List.mem_flatMap,
    Option.mem_toList, memOptionRefs] at mem ⊢
  grind

theorem continuesScope (continues : continuesLines a r = true) :
    ∃ scope : ScopeRef, ∃ n, scope.ref = r ∧ a.node scope = .ok n ∧ n.kind = .macroBody := by
  obtain ⟨c, arena, index⟩ := r
  cases c with
  | scope =>
    simp only [continuesLines] at continues
    split at continues
    · rename_i n found
      refine ⟨⟨arena, index⟩, n, rfl, found, ?_⟩
      cases kind : n.kind <;> simp [kind, ScopeKind.continuesLines] at continues ⊢
    · contradiction
  | _ => contradiction

theorem writtenUnbroken (housed : a.Housed) {k : NodeRef} (writes : a.Writes r k)
    (other : ∀ (d : DirectiveRef) name ps scope, d.ref = r → a.node d ≠ .ok (.defineFunction name ps scope)) :
    continuesLines a k = false := by
  refine Bool.eq_false_iff.mpr fun continues => ?_
  obtain ⟨scope, n, rfl, found, kind⟩ := continuesScope continues
  obtain ⟨body, mem, same⟩ := scopeWritten writes rfl
  cases refInjective same
  obtain ⟨entries, kept⟩ := housed.kept r body mem
  cases Except.ok.inj (found.symm.trans kept)
  obtain ⟨d, name, ps, own, defined⟩ := macroOwner mem kind
  exact other d name ps body.scope own defined

theorem conditionalOther {d : DirectiveRef} {data : Conditional} (found : a.node d = .ok (.conditional data)) :
    ∀ (e : DirectiveRef) name ps scope, e.ref = d.ref → a.node e ≠ .ok (.defineFunction name ps scope) := by
  intro e name ps scope same defined
  cases refInjective same
  cases Except.ok.inj (defined.symm.trans found)

theorem Arena.Tame.other (tame : a.Tame r) :
    ∀ (d : DirectiveRef) name ps scope, d.ref = r → a.node d ≠ .ok (.defineFunction name ps scope) := by
  rcases tame.code with ⟨d, data, rfl, found, _⟩ | codes
  · exact conditionalOther found
  · rintro d name ps scope rfl defined
    rw [Arena.piecesOf defined] at codes
    exact absurd (codes "\n#define " (List.mem_cons_self ..)) (by decide)

theorem steadyBelow (housed : a.Housed) {scope : ScopeRef} (plain : continuesLines a scope.ref = false)
    (tame : ∀ k, a.Shows scope.ref k → a.Tame k) (shows : a.Shows scope.ref r) (rendered : a.render r = .ok text) :
    Steady v text.toList := by
  refine Arena.writtenInduct (P := fun r text => a.Shows scope.ref r → Steady v text.toList)
    (fun r text rendered below shows => ?_) rendered shows
  obtain ⟨inner, spelled, rfl⟩ := renderedIff.mp rendered
  have unbroken : continuesLines a r = false := by
    rcases shows.cases_tail with rfl | ⟨m, shows, writes⟩
    · exact plain
    · exact writtenUnbroken housed writes (tame m shows).other
  rw [unbroken]
  refine steadyCommented (tame r shows) ?_
  rcases (tame r shows).code with ⟨d, data, rfl, found, single⟩ | codes
  · rw [Arena.piecesOf found] at spelled
    refine (conditionalStands single (fun scope mem t told => ?_) spelled).steady
    have writes := branchWritten found mem
    exact below _ t writes told (shows.tail writes)
  · exact steadySpelled spelled codes fun k writes t told => below k t writes told (shows.tail writes)

end Below

/-- The lines that are kept of a conditional, its own comments apart, are those of the branch that is selected. -/
theorem conditionalsSelect {p : Policy} {w : World} (reachable : w.Reachable p) {n : Nat} {a : Arena}
    (here : w.session.arenas[n]? = some a) {d : DirectiveRef} {data : Conditional}
    (found : a.node d = .ok (.conditional data)) (single : data.OneLine a)
    (tame : ∀ scope ∈ data.scopes, ∀ k, a.Shows scope.ref k → a.Tame k) {whole : String}
    (rendered : a.render d.ref = .ok whole) :
    ∃ text, whole = a.commented d.ref text ∧ ∀ v, match data.selected a v with
      | some scope => ∃ body, a.render scope.ref = .ok body ∧ visible v text = visible v body
      | none => visible v text = [] := by
  obtain ⟨text, spelled, rfl⟩ := renderedIff.mp rendered
  refine ⟨text, rfl, fun v => ?_⟩
  rw [Arena.piecesOf found] at spelled
  have housed := reachable.housed n a here
  have bodies (scope : ScopeRef) (mem : scope ∈ data.scopes) (t : String) (told : a.render scope.ref = .ok t) :
      Steady v t.toList :=
    steadyBelow housed (writtenUnbroken housed (branchWritten found mem) (conditionalOther found)) (tame scope mem)
      .refl told
  have stands := conditionalStands single bodies spelled
  cases chosen : data.selected a v with
  | none => rw [stands.visible, chosen]; rfl
  | some scope =>
    have writes : .child scope.ref ∈ pieces a d.ref := branchWritten found (Conditional.selectedListed chosen)
    rw [Arena.piecesOf found] at writes
    obtain ⟨body, told⟩ := spelled.written writes
    refine ⟨body, told, ?_⟩
    rw [stands.visible, chosen, Option.elim_some, includedOfText told]
    rfl

def Piece.code? : Piece → Option String
  | code text => some text
  | _ => none

def Piece.child? : Piece → Option NodeRef
  | child k => some k
  | _ => none

theorem Arena.showsWithin {a : Arena} {refs : List NodeRef}
    (closed : ∀ r ∈ refs, ∀ k ∈ (pieces a r).filterMap Piece.child?, k ∈ refs) {r k : NodeRef} (first : r ∈ refs)
    (shows : a.Shows r k) : k ∈ refs := by
  induction shows with
  | refl => exact first
  | tail before writes ih => exact closed _ ih _ (List.mem_filterMap.mpr ⟨_, writes, rfl⟩)

/-- The last branch is asked for before the second, and the second has a conditional in it. -/
def World.nested : World :=
  (((((branched.act 0 (.expr (.raw "B"))).act 0 (.grow (.addElif .topLevel ⟨⟨0, 0⟩⟩ ⟨0, 0⟩))).act 0
    (.putDirective ⟨.topLevel, ⟨0, 3⟩⟩ .topLevel rfl (.conditional (.isUndefined "C")))).act 0
    (.grow (.elseOfConditional .topLevel ⟨⟨0, 1⟩⟩))).act 0 (.putAny ⟨.topLevel, ⟨0, 5⟩⟩ (.raw "int c;"))).act 0
    (.putAny ⟨.topLevel, ⟨0, 2⟩⟩ (.raw "int d;"))

theorem World.nestedReachable : nested.Reachable .strict := by
  refine .act (.act (.act (.act (.act (.act branchedReachable ?_) ?_) ?_) ?_) ?_) ?_
  all_goals exact allowsHeld (by decide) rfl (by decide)

def World.nestedInner : DirectiveRef := ⟨0, 1⟩

def World.nestedBelow : List NodeRef :=
  [⟨.scope, 0, 1⟩, ⟨.scope, 0, 2⟩, ⟨.scope, 0, 3⟩, ⟨.scope, 0, 4⟩, ⟨.scope, 0, 5⟩, nestedInner.ref, ⟨.decl, 0, 0⟩,
    ⟨.decl, 0, 1⟩]

theorem nestedTame {a : Arena} (here : World.nested.session.arenas[0]? = some a) {r k : NodeRef}
    (first : r ∈ World.nestedBelow) (shows : a.Shows r k) : a.Tame k := by
  have closed : ∀ r ∈ World.nestedBelow, ∀ k ∈ (pieces a r).filterMap Piece.child?, k ∈ World.nestedBelow := by
    cases here
    decide
  have codes : ∀ r ∈ World.nestedBelow, r ≠ World.nestedInner.ref →
      ∀ text ∈ (pieces a r).filterMap Piece.code?, Unmarked text := by
    cases here
    decide
  have bare : ∀ r ∈ World.nestedBelow, a.commentsOf r = none := by
    cases here
    decide
  obtain ⟨data, found, single⟩ :
      ∃ data, a.node World.nestedInner = .ok (.conditional data) ∧ data.OneLine a := by
    cases here
    refine ⟨_, rfl, ?_⟩
    unfold Conditional.OneLine
    decide
  have listed : k ∈ World.nestedBelow := Arena.showsWithin closed first shows
  refine ⟨?_, fun c attached => ?_⟩
  · by_cases same : k = World.nestedInner.ref
    · exact .inl ⟨World.nestedInner, data, same.symm, found, single⟩
    · exact .inr fun text written => codes k listed same text (List.mem_filterMap.mpr ⟨_, written, rfl⟩)
  · rw [bare k listed] at attached
    contradiction

theorem innerBranchSelected : ∃ a text, World.nested.session.arenas[0]? = some a ∧
    a.render ⟨.directive, 0, 0⟩ = .ok text ∧ visible ⟨(· == "B"), (· == "C")⟩ text = ["int c;".toList] := by
  obtain ⟨a, here⟩ : ∃ a, World.nested.session.arenas[0]? = some a := ⟨_, rfl⟩
  obtain ⟨data, found, single, scopes⟩ : ∃ data, a.node (⟨0, 0⟩ : DirectiveRef) = .ok (.conditional data) ∧
      data.OneLine a ∧ ∀ scope ∈ data.scopes, scope.ref ∈ World.nestedBelow := by
    cases here
    refine ⟨_, rfl, ?_, by decide⟩
    unfold Conditional.OneLine
    decide
  obtain ⟨whole, rendered⟩ : ∃ whole, a.render ⟨.directive, 0, 0⟩ = .ok whole := by
    cases here
    exact ⟨_, rfl⟩
  obtain ⟨text, rfl, selects⟩ := conditionalsSelect World.nestedReachable here found single
    (fun scope mem _ shows => nestedTame here (scopes scope mem) shows) rendered
  have plain : a.commented ⟨.directive, 0, 0⟩ text = text := by
    cases here
    rfl
  have chosen : data.selected a ⟨(· == "B"), (· == "C")⟩ = some ⟨0, 3⟩ := by
    cases here
    cases found
    rfl
  have selected := selects ⟨(· == "B"), (· == "C")⟩
  rw [chosen] at selected
  obtain ⟨body, told, same⟩ := selected
  refine ⟨a, _, here, rendered, (congrArg _ plain).trans (same.trans ?_)⟩
  cases here
  cases told
  decide

end CSource
