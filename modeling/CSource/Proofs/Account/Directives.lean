import CSource.Proofs.Account.Scopes

/-!
The account of every action that puts a directive into a scope, adds a branch to a conditional or sets a comment.
-/

namespace CSource

open Build

variable {given : Slot → Prop} {e : Effect} {a b : Arena} {scope : ScopeRef} {shape : Shape}

theorem putFreshDirective {d : DirectiveRef} (has : a.Has (d.as shape)) :
    Account given .does a (pushDirective scope d) [] fun x b => b.Has (x.as shape) := by
  refine (pushDirectiveAccount (List.forall_mem_singleton.mpr (.has has.plain))).weaken nofun
    fun x b later same => ?_
  rw [same]
  exact later.keepsHas has

theorem placeDirectiveAccount {n : DirectiveNode} (own : ∀ s ∈ n.slots, s.Own a)
    (known : ∀ s ∈ n.slots, Known given a s) (initial : n.Initial)
    (allowed : ∀ f ∈ n.features, a.dialect = f.dialect) (accepted : shape.acceptsDirective n = true) :
    Account given .does a (placeDirective scope n) n.slots fun d b => b.Has (d.as shape) := by
  unfold placeDirective
  have stored : Account given .makes a (alloc .directive n) n.slots fun d b => b.Has (d.as shape) :=
    .store (c := .directive) own known initial allowed accepted rfl
  exact .bindFirst stored fun d b _ has => putFreshDirective has

theorem placeBareDirectiveAccount {n : DirectiveNode} (bare : n.slots = []) (initial : n.Initial)
    (allowed : ∀ f ∈ n.features, a.dialect = f.dialect) :
    Account given .does a (placeDirective scope n) [] fun d b => b.Has d.plain := by
  have placed : Account given .does a (placeDirective scope n) n.slots fun d b => b.Has d.plain :=
    placeDirectiveAccount (by simp [bare]) (by simp [bare]) initial allowed rfl
  exact placed.forget

theorem placeOverScope {r : Role} {kind : ScopeKind} {k : PlaceKind} {n : ScopeRef → DirectiveNode}
    {rest : List Slot} {β : Type} {g : DirectiveRef → β} {post : β → Arena → Prop} (orphan : kind.parent? = none)
    (fits : (Shape.place k).acceptsScope kind = true)
    (slots : ∀ body, (n body).slots = body.as (.place k) :: rest) (own : ∀ s ∈ rest, s.Own a)
    (known : ∀ s ∈ rest, Known given a s) (initial : ∀ body, (n body).Initial)
    (allowed : ∀ body, ∀ f ∈ (n body).features, a.dialect = f.dialect)
    (accepted : ∀ body, (Shape.role r).acceptsDirective (n body) = true)
    (holds : ∀ d b, b.Has (d.as (.role r)) → post (g d) b) :
    Account given .does a (newScope kind >>= fun body => placeDirective scope (n body) >>= fun d => pure (g d))
      rest post := by
  refine .bind (.newScope orphan fits) fun body b extended _ has => ?_
  have ownRest : ∀ s ∈ rest, s.Own b := fun s mem => extended.keepsOwn.mpr (own s mem)
  have placed : Account given .does b (placeDirective scope (n body)) rest fun d b => b.Has (d.as (.role r)) := by
    refine (placeDirectiveAccount ?_ ?_ (initial body) ?_ (accepted body)).weaken (fun _ => ownRest)
      fun _ _ _ h => h
    · rw [slots]
      exact List.forall_mem_cons.mpr ⟨has.own, ownRest⟩
    · rw [slots]
      exact List.forall_mem_cons.mpr ⟨.has has, extended.keepsEach known⟩
    · exact fun f mem => extended.dialect.trans (allowed body f mem)
  exact placed.map fun d c _ has => holds d c has

theorem placeMacroFunctionAccount (name : String) (params : List String) :
    Account given .does a (placeMacroFunction scope name params) []
      fun m b => b.Has (m.handle.as (.role .functionMacro)) := by
  unfold placeMacroFunction
  exact placeOverScope (k := .macroBody) rfl rfl (fun _ => rfl) nofun nofun (fun _ => trivial) (fun _ => nofun)
    (fun _ => rfl) fun _ _ has => has

theorem branchFits (branch : BranchKind) :
    branch.scopeKind.parent? = none ∧ (Shape.place branch.placeKind).acceptsScope branch.scopeKind = true := by
  cases branch <;> exact ⟨rfl, rfl⟩

theorem placeConditionalAccount {branch : BranchKind} {head : Condition}
    (known : ∀ s ∈ head.slots, Known given a s) :
    Account given .does a (placeConditional scope branch head) head.slots
      fun c b => b.Has (c.handle.as (.role (.conditional branch))) := by
  unfold placeConditional
  refine .check (ownConditionChecks head) fun own => ?_
  refine placeOverScope (r := .conditional branch) (branchFits branch).1 (branchFits branch).2 ?_ own known
    (fun _ => ⟨rfl, rfl⟩)
    (fun _ => nofun) (fun _ => decide_eq_true rfl) fun _ _ has => has
  intro body
  simp [DirectiveNode.slots, Conditional.slots]

theorem placeRepeatedAccount (piece : String) (count : Nat) :
    Account given .does a (placeRepeated scope piece count) [] fun d b => b.Has d.plain := by
  unfold placeRepeated
  dsimp only
  split
  · exact .throwBind
  · exact placeBareDirectiveAccount rfl trivial nofun

theorem placeNamespaceAccount (name : QualName) :
    Account given .does a (placeNamespace scope name) []
      fun n b => b.Has (n.handle.as (.role .namespaceBlock)) := by
  unfold placeNamespace
  refine .check (requireChecks _) fun language => ?_
  exact placeOverScope (k := .topLevel) rfl rfl (fun _ => rfl) nofun nofun (fun _ => trivial)
    (fun _ => List.forall_mem_singleton.mpr language) (fun _ => rfl) fun _ _ has => has

theorem placeUsingDirectiveAccount (name : QualName) :
    Account given .does a (placeUsingDirective scope name) [] fun d b => b.Has d.plain := by
  unfold placeUsingDirective
  exact .check (requireChecks _) fun language =>
    placeBareDirectiveAccount rfl trivial (List.forall_mem_singleton.mpr language)

theorem placeUsingNameAccount (name : QualName) :
    Account given .does a (placeUsingName scope name) [] fun d b => b.Has d.plain := by
  unfold placeUsingName
  exact .check (requireChecks _) fun language =>
    placeBareDirectiveAccount rfl trivial (List.forall_mem_singleton.mpr language)

theorem readConditionalAccount {branch : BranchKind} {c : Typed (.conditional branch)} :
    Account given .makes a (readConditional c) [c.handle.as (.role (.conditional branch))] fun data b =>
      b = a ∧ a.node c.handle = .ok (.conditional data) := by
  unfold readConditional
  refine .read fun n here => ?_
  cases n with
  | conditional data => exact .pure (foundOwn here) ⟨rfl, here⟩
  | _ => exact .throw

section Branch

variable {branch : BranchKind} {c : Typed (.conditional branch)}

def Arena.Selects (a : Arena) (c : Typed (.conditional branch)) : Prop :=
  ∀ data, a.node c.handle = .ok (.conditional data) → data.branch = branch

theorem newBranchAccount {kind : BranchKind} :
    Account given e a (newScope kind.scopeKind) [] fun body b => b.Has (body.as (.place kind.placeKind)) :=
  .newScope (branchFits kind).1 (branchFits kind).2

theorem addElifAccount {cond : ExprRef} (selects : a.Selects c) (known : ∀ s ∈ [cond.plain], Known given a s) :
    Account given .does a (addElif c cond) [c.handle.as (.role (.conditional branch)), cond.plain]
      fun p b => Known given b p.slot := by
  unfold addElif
  refine .check (ownChecks cond) fun ownCond => ?_
  refine .bind readConditionalAccount fun data b _ ownHandle ⟨same, here⟩ => ?_
  subst same
  have own := List.forall_mem_append.mpr ⟨ownHandle, ownCond⟩
  refine .bind newBranchAccount fun body d extended _ has => ?_
  have again := extended.keepsNode here
  refine .updateGive again ⟨.elif data ⟨cond, body⟩, ?_, nofun⟩ (fun s mem => extended.keepsOwn.mpr (own s mem)) ?_
  · intro s mem
    have new : s = cond.plain → s.Own d ∧ Known given d s := by
      rintro rfl
      exact ⟨extended.keepsOwn.mpr (ownCond _ (by simp)), extended.keepsKnown (known _ (by simp))⟩
    have fresh : s = body.as (.place data.branch.placeKind) → s.Own d ∧ Known given d s := by
      rintro rfl
      exact ⟨has.own, .has has⟩
    simp only [Node.slots, DirectiveNode.slots, Conditional.slots, List.flatMap_append, List.flatMap_cons,
      List.flatMap_nil, List.append_nil, List.mem_append, List.mem_cons, List.not_mem_nil, or_false] at mem ⊢
    grind
  · intro f later
    rw [selects data here] at has
    exact .has (later.keepsHas has)

theorem elseOfConditionalAccount (selects : a.Selects c) :
    Account given .does a (elseOfConditional c) [c.handle.as (.role (.conditional branch))]
      fun p b => Known given b p.slot := by
  unfold elseOfConditional
  refine .bind readConditionalAccount fun data b _ own ⟨same, here⟩ => ?_
  subst same
  have kind := selects data here
  cases filled : data.otherwise with
  | some scope =>
    refine .pure own (.stored (.node (Arena.nodeIff.mp here).2 ?_))
    simp [Node.slots, DirectiveNode.slots, Conditional.slots, filled, Place.slot, kind]
  | none =>
    refine .bind newBranchAccount fun body d extended _ has => ?_
    have again := extended.keepsNode here
    have grows : DirectiveNode.Grows (.conditional data) (.conditional { data with otherwise := some body }) :=
      .otherwise data body filled
    refine .updateGive again ⟨grows, ?_, List.forall_mem_nil _⟩ (fun s mem => extended.keepsOwn.mpr (own s mem)) ?_
    · intro s mem
      simp only [Node.slots, DirectiveNode.slots, Conditional.slots, filled, Option.toList_some,
        Option.toList_none, List.map_cons, List.map_nil, List.append_nil] at mem ⊢
      rcases List.mem_append.mp mem with old | new
      · exact .inl old
      · cases List.mem_singleton.mp new
        exact .inr ⟨has.own, .has has⟩
    · intro f later
      rw [kind] at has
      exact .has (later.keepsHas has)

end Branch

theorem setCommentsAccount {r : NodeRef} {f : Comments → Comments} (known : Known given a ⟨r, .any⟩) :
    Account given .does a (do Build.own r.handle; modify (·.setComments r f)) [⟨r, .any⟩] fun _ _ => True := by
  refine .check (ownChecks r.handle) fun own => ?_
  have same : r.arena = a.number := own _ (List.mem_singleton_self _)
  exact ⟨.single (.comment r f same known), List.forall_mem_singleton.mpr same, trivial⟩

theorem commentBeforeAccount {r : NodeRef} {text : String} (known : Known given a ⟨r, .any⟩) :
    Account given .does a (commentBefore r text) [⟨r, .any⟩] fun _ _ => True :=
  setCommentsAccount known

theorem commentAfterAccount {r : NodeRef} {text : String} (known : Known given a ⟨r, .any⟩) :
    Account given .does a (commentAfter r text) [⟨r, .any⟩] fun _ _ => True :=
  setCommentsAccount known

end CSource
