import CSource.Proofs.Account.Stmts

/-!
The account of every action that puts a function into a scope. A member function takes its aggregate from the scope
it is put into, and that scope must have been given to the call.
-/

namespace CSource

open Build

variable {given : Slot → Prop} {e : Effect} {a b : Arena} {scope : ScopeRef}

def Arena.HasFunction (a : Arena) (lifecycle : Lifecycle) (f : FunctionRef) : Prop :=
  a.Has (f.handle.as (.role .function)) ∧ (lifecycle = .split → a.Has (f.handle.as .splitFunction))

theorem placeFunctionAccount {lifecycle : Lifecycle} {f : FunctionRef} (has : a.HasFunction lifecycle f) :
    Account given .does a (placeFunction scope lifecycle f) []
      fun g b => b.Has (g.handle.as (.role .function)) := by
  unfold placeFunction
  dsimp only
  split
  · rename_i split
    refine .bind (tagDeclAccount (n := .splitForward f.handle) rfl (has.2 split) trivial nofun) ?_
    intro half b extended _ hasHalf
    exact .discard (putFreshDecl hasHalf) fun c later => later.keepsHas (extended.keepsHas has.1)
  · exact .discard (putFreshDecl has.1.plain) fun c later => later.keepsHas has.1

theorem defFunctionAccount {lifecycle : Lifecycle} {name : QualName} {ret : TypeRef} {params : List DeclRef}
    {variadic : Bool} (known : ∀ s ∈ ret.plain :: plainSlots params, Known given a s) :
    Account given .does a (defFunction scope lifecycle name ret params variadic) (ret.plain :: plainSlots params)
      fun f b => b.Has (f.handle.as (.role .function)) := by
  unfold defFunction
  have made : Account given .makes a (newFunction name (some ret) params variadic lifecycle .free none)
      (ret.plain :: plainSlots params) fun f b => b.HasFunction lifecycle f :=
    newFunctionAccount known (by simp) .none
  exact .bindFirst made fun f b _ has => placeFunctionAccount has

theorem runPushDecl {d : DeclRef} {n : ScopeNode} (own : d.arena = a.number) (here : a.node scope = .ok n) :
    ∃ b, (pushDecl scope d).run a = .ok d b := by
  unfold pushDecl
  rw [EStateM.run_bind, runPushEntry (.decl d) own here]
  exact ⟨_, rfl⟩

theorem defineFunctionAccount {f : FunctionRef} (present : ∃ n, a.node scope = .ok n) :
    Account given .does a (defineFunction scope f) [f.handle.as (.role .function)]
      fun g b => b.Has (g.handle.as (.role .function)) := by
  unfold defineFunction
  refine .check (ownChecks f.handle) fun _ => ?_
  -- the mark is set before the function is placed, and from then on nothing can be refused
  refine markDefinedAccount.bindSure fun _ b changed _ has => ⟨?_, ?_⟩
  · exact .discard (putFreshDecl has.plain) fun c later => later.keepsHas has
  · obtain ⟨n, here⟩ := changed.keepsPresent present
    obtain ⟨c, placed⟩ := runPushDecl has.own here
    rw [Account.discardBind, EStateM.run_bind, placed]
    exact ⟨f, c, rfl⟩

theorem defineFunctionLate {f : FunctionRef} :
    LateAccount given a (defineFunction scope f) [f.handle.as (.role .function)]
      fun g b => b.Has (g.handle.as (.role .function)) := by
  unfold defineFunction
  refine .check (ownChecks f.handle) fun _ => markDefinedAccount.bindLate fun _ b _ has => ?_
  exact .discard (putFreshDecl has.plain) fun c later => later.keepsHas has

theorem defFunctionTemplateAccount {name : QualName} {templateParams : List DeclRef} {ret : TypeRef}
    {params : List DeclRef} {variadic : Bool}
    (known : ∀ s ∈ ret.plain :: plainSlots params ++ plainSlots templateParams, Known given a s) :
    Account given .does a (defFunctionTemplate scope name templateParams ret params variadic)
      (ret.plain :: plainSlots params ++ plainSlots templateParams)
      fun r b => b.Has r.1.plain ∧ b.Has (r.2.handle.as (.role .function)) := by
  have known := List.forall_mem_append.mp known
  unfold defFunctionTemplate
  refine .bind (functionDeclAccount known.1) fun f b extended own has => .withOwn own ?_
  refine .bindFirst (templateFreshAccount has.plain (extended.keepsEach known.2))
    fun template c extended hasTemplate => ?_
  exact .discard (putFreshDecl hasTemplate) fun d later =>
    ⟨later.keepsHas hasTemplate, later.keepsHas (extended.keepsHas has)⟩

theorem parentOfAccount :
    Account given .makes a (parentOf scope) [] fun p b =>
      b = a ∧ ∃ n : ScopeNode, a.node scope = .ok n ∧ p.as .aggregate ∈ n.kind.slots := by
  unfold parentOf
  refine .read fun n here => ?_
  split
  · rename_i parent labeled kind
    exact .pure nofun ⟨rfl, n, here, by simp [kind, ScopeKind.slots, ScopeKind.parent?]⟩
  · exact .throw

theorem classNameOfAccount : Account given .makes a (classNameOf scope) [] fun _ b => b = a := by
  unfold classNameOf
  refine .bind parentOfAccount fun parent b _ _ ⟨same, _⟩ => ?_
  subst same
  exact .read fun name _ => .pure nofun rfl

section Member

variable {name : String} {ret : Option TypeRef} {params : List DeclRef} {variadic : Bool}
  {lifecycle : Lifecycle} {kind : FuncKind}

theorem newMemberAccount (issued : given (scope.as (.place .member)))
    (known : ∀ s ∈ optionSlots ret ++ plainSlots params, Known given a s)
    (returns : ret.isNone ↔ kind = .constructor ∨ kind = .destructor) (member : kind ≠ .free) :
    Account given .makes a (newMember scope name ret params variadic lifecycle kind)
      (optionSlots ret ++ plainSlots params) fun f b => b.HasFunction lifecycle f := by
  unfold newMember
  refine .check (requireChecks _) fun language => ?_
  refine .bind parentOfAccount fun parent b _ _ ⟨same, n, here, mem⟩ => ?_
  subst same
  have stored : Known given b (parent.as .aggregate) :=
    .stored (.node (Arena.nodeIff.mp here).2 (List.mem_append_left _ mem))
  have parentage : Parentage given b kind (some parent) := by
    refine ⟨by simpa using member, ?_, ?_, fun _ => language⟩
    · rintro _ ⟨⟩
      exact stored
    · rintro _ ⟨⟩
      exact ⟨scope, n, issued, here, mem⟩
  exact newFunctionAccount known returns parentage

theorem defMethodAccount {ret : TypeRef} (issued : given (scope.as (.place .member)))
    (known : ∀ s ∈ ret.plain :: plainSlots params, Known given a s) :
    Account given .does a (defMethod scope lifecycle name ret params variadic) (ret.plain :: plainSlots params)
      fun f b => b.Has (f.handle.as (.role .function)) := by
  unfold defMethod
  have made : Account given .makes a (newMember scope name (some ret) params variadic lifecycle .method)
      (ret.plain :: plainSlots params) fun f b => b.HasFunction lifecycle f :=
    newMemberAccount issued known (by simp) (by simp)
  exact .bindFirst made fun f b _ has => placeFunctionAccount has

theorem defMethodTemplateAccount {templateParams : List DeclRef} {ret : TypeRef}
    (issued : given (scope.as (.place .member)))
    (known : ∀ s ∈ ret.plain :: plainSlots params ++ plainSlots templateParams, Known given a s) :
    Account given .does a (defMethodTemplate scope name templateParams ret params variadic)
      (ret.plain :: plainSlots params ++ plainSlots templateParams)
      fun r b => b.Has r.1.plain ∧ b.Has (r.2.handle.as (.role .function)) := by
  have known := List.forall_mem_append.mp known
  unfold defMethodTemplate
  have made : Account given .makes a (newMember scope name (some ret) params variadic .inPlace .method)
      (ret.plain :: plainSlots params) fun f b => b.HasFunction .inPlace f :=
    newMemberAccount issued known.1 (by simp) (by simp)
  refine .bind made fun f b extended own has => .withOwn own ?_
  refine .bindFirst (templateFreshAccount has.1.plain (extended.keepsEach known.2))
    fun template c extended hasTemplate => ?_
  exact .discard (putFreshDecl hasTemplate) fun d later =>
    ⟨later.keepsHas hasTemplate, later.keepsHas (extended.keepsHas has.1)⟩

theorem defConstructorAccount (issued : given (scope.as (.place .member)))
    (known : ∀ s ∈ plainSlots params, Known given a s) :
    Account given .does a (defConstructor scope lifecycle params) (plainSlots params)
      fun f b => b.Has (f.handle.as (.role .function)) := by
  unfold defConstructor
  refine .bind classNameOfAccount fun name b _ _ same => ?_
  subst same
  have made : Account given .makes b (newMember scope name none params false lifecycle .constructor)
      (plainSlots params) fun f b => b.HasFunction lifecycle f :=
    newMemberAccount issued known (by simp) (by simp)
  exact .bindFirst made fun f b _ has => placeFunctionAccount has

theorem defDestructorAccount (issued : given (scope.as (.place .member))) :
    Account given .does a (defDestructor scope lifecycle) []
      fun f b => b.Has (f.handle.as (.role .function)) := by
  unfold defDestructor
  refine .bind classNameOfAccount fun name b _ _ same => ?_
  subst same
  have made : Account given .makes b (newMember scope ("~" ++ name) none [] false lifecycle .destructor)
      [] fun f b => b.HasFunction lifecycle f :=
    newMemberAccount issued nofun (by simp) (by simp)
  exact .bindFirst made fun f b _ has => placeFunctionAccount has

end Member

end CSource
