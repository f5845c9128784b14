import CSource.Proofs.Account.Types

/-!
The account of every action that makes a declaration or changes a variable or a function.
-/

namespace CSource

open Build

variable {given : Slot → Prop} {e : Effect} {a b : Arena}

theorem rawDeclAccount (text : String) : Account given e a (rawDecl text) [] fun d b => b.Has d.plain :=
  .store (c := .decl) (n := .raw text) nofun nofun trivial nofun rfl rfl

theorem newVarAccount {name : QualName} {ty : TypeRef} {init : Option ExprRef} (shape : VarShape)
    (ownShape : ∀ s ∈ shape.slots, s.Own a) (allowed : ∀ f ∈ shape.features, a.dialect = f.dialect)
    (known : ∀ s ∈ ty.plain :: optionSlots init ++ shape.slots, Known given a s) :
    Account given e a (newVar name ty init shape) (ty.plain :: optionSlots init ++ shape.slots)
      fun d b => b.Has d.plain := by
  unfold newVar
  refine .check (ownChecks ty) fun own₁ => ?_
  refine .check (ownOptionChecks init) fun own₂ => ?_
  have own := List.forall_mem_append.mpr ⟨List.forall_mem_append.mpr ⟨own₁, own₂⟩, ownShape⟩
  refine .store (c := .decl) own known trivial ?_ rfl rfl
  simpa [Node.features, DeclNode.features, VarQualifiers.none, usedIf] using allowed

theorem varDeclAccount {name : QualName} {ty : TypeRef} {init : Option ExprRef}
    (known : ∀ s ∈ ty.plain :: optionSlots init, Known given a s) :
    Account given e a (varDecl name ty init) (ty.plain :: optionSlots init) fun d b => b.Has d.plain := by
  have same : ty.plain :: optionSlots init ++ VarShape.plain.slots = ty.plain :: optionSlots init :=
    List.append_nil _
  rw [← same] at known ⊢
  exact newVarAccount .plain nofun nofun known

theorem arrayVarDeclAccount {name : QualName} {ty : TypeRef} {sizes : List ExprRef} {init : Option ExprRef}
    (known : ∀ s ∈ ty.plain :: optionSlots init ++ plainSlots sizes, Known given a s) :
    Account given e a (arrayVarDecl name ty sizes init) (ty.plain :: optionSlots init ++ plainSlots sizes)
      fun d b => b.Has d.plain := by
  unfold arrayVarDecl
  exact .check (ownEachChecks sizes) fun own => newVarAccount (.array sizes) own nofun known

theorem constructedVarDeclAccount {name : QualName} {ty : TypeRef} {args : List ExprRef} {braced : Bool}
    (known : ∀ s ∈ ty.plain :: plainSlots args, Known given a s) :
    Account given e a (constructedVarDecl name ty args braced) (ty.plain :: plainSlots args)
      fun d b => b.Has d.plain := by
  unfold constructedVarDecl
  refine .check (requireChecks _) fun language => ?_
  refine .check (ownEachChecks args) fun own => ?_
  exact newVarAccount (.construct args braced) own (List.forall_mem_singleton.mpr language) known

structure Parentage (given : Slot → Prop) (a : Arena) (kind : FuncKind) (parent : Option TypeRef) : Prop where
  member : parent.isSome ↔ kind ≠ .free
  known : ∀ p ∈ parent, Known given a (p.as .aggregate)
  source : ∀ p ∈ parent, Inherited given a (p.as .aggregate)
  language : kind ≠ .free → a.dialect = Feature.memberFunction.dialect

theorem Parentage.none : Parentage given a .free none :=
  ⟨by simp, nofun, nofun, fun ne => absurd rfl ne⟩

def startingBody (lifecycle : Lifecycle) : Build (Option ScopeRef) :=
  if lifecycle = .split then some <$> newBody else pure none

theorem startingBodyAccount (lifecycle : Lifecycle) :
    Account given e a (startingBody lifecycle) [] fun body b =>
      (body.isSome ↔ lifecycle = .split) ∧ ∀ scope ∈ body, b.Has (scope.as (.place .function)) := by
  unfold startingBody
  split
  · rename_i split
    refine .mapped .newBody fun scope b _ has => ⟨by simp [split], ?_⟩
    rintro _ ⟨⟩
    exact has
  · rename_i whole
    exact .pure nofun ⟨by simp [whole], nofun⟩

def FuncDecl.fresh (name : QualName) (ret : Option TypeRef) (params : List DeclRef) (variadic : Bool)
    (lifecycle : Lifecycle) (kind : FuncKind) (parent : Option TypeRef) (body : Option ScopeRef) : FuncDecl where
  name := name
  ret := ret
  params := params
  variadic := variadic
  body := body
  lifecycle := lifecycle
  kind := kind
  quals := .none
  method := parent.map (⟨·, .none⟩)
  inits := []
  defined := false

theorem newFunctionEq (name : QualName) (ret : Option TypeRef) (params : List DeclRef) (variadic : Bool)
    (lifecycle : Lifecycle) (kind : FuncKind) (parent : Option TypeRef) :
    newFunction name ret params variadic lifecycle kind parent = (do
      ownOption ret
      ownEach params
      let body ← startingBody lifecycle
      let decl ← alloc .decl (.function (.fresh name ret params variadic lifecycle kind parent body))
      pure ⟨decl⟩) := by
  unfold newFunction startingBody
  cases lifecycle <;> rfl

section Fresh

variable {name : QualName} {ret : Option TypeRef} {params : List DeclRef} {variadic : Bool}
  {lifecycle : Lifecycle} {kind : FuncKind} {parent : Option TypeRef} {body : Option ScopeRef}

theorem freshSlots {s : Slot}
    (mem : s ∈ (DeclNode.function (.fresh name ret params variadic lifecycle kind parent body)).slots) :
    s ∈ optionSlots ret ++ plainSlots params ∨ (∃ scope ∈ body, s = scope.as (.place .function)) ∨
      ∃ p ∈ parent, s = p.as .aggregate := by
  cases body <;> cases parent <;> simp_all [DeclNode.slots, FuncDecl.fresh, or_assoc]

theorem freshInitial (split : body.isSome ↔ lifecycle = .split)
    (returns : ret.isNone ↔ kind = .constructor ∨ kind = .destructor) (parentage : Parentage given a kind parent) :
    (FuncDecl.fresh name ret params variadic lifecycle kind parent body).Initial where
  body := split
  member := by simpa [FuncDecl.fresh] using parentage.member
  ret := returns
  special := by cases parent <;> rfl
  inits := rfl
  defined := rfl

theorem freshBorn (own : ∀ s ∈ optionSlots ret ++ plainSlots params, s.Own a)
    (known : ∀ s ∈ optionSlots ret ++ plainSlots params, Known given a s)
    (has : ∀ scope ∈ body, a.Has (scope.as (.place .function))) (split : body.isSome ↔ lifecycle = .split)
    (returns : ret.isNone ↔ kind = .constructor ∨ kind = .destructor) (parentage : Parentage given a kind parent) :
    Born given a (c := .decl)
      (.function (.fresh name ret params variadic lifecycle kind parent body)) := by
  refine ⟨?_, .inr ?_, freshInitial split returns parentage, ?_⟩
  · intro s mem
    rcases freshSlots mem with passed | ⟨scope, started, rfl⟩ | ⟨p, isParent, rfl⟩
    · exact known s passed
    · exact .has (has scope started)
    · exact parentage.known p isParent
  · intro s mem
    rcases freshSlots mem with passed | ⟨scope, started, rfl⟩ | ⟨p, isParent, rfl⟩
    · exact .inl (own s passed)
    · exact .inl (has scope started).own
    · exact .inr (.inr (parentage.source p isParent))
  · refine List.forall_mem_append.mpr ⟨nofun, usedIfAllowed fun member => parentage.language ?_⟩
    simpa [FuncDecl.fresh] using member

theorem freshAccount {args : List Slot}
    (born : Born given a (c := .decl) (.function (.fresh name ret params variadic lifecycle kind parent body)))
    (own : ∀ s ∈ args, s.Own a) :
    Account given e a (alloc .decl (.function (.fresh name ret params variadic lifecycle kind parent body))) args
      fun d b => b.Has (d.as (.role .function)) ∧ (lifecycle = .split → b.Has (d.as .splitFunction)) := by
  refine .alloc born own ⟨Arena.hasPushed rfl nofun, fun split => Arena.hasPushed ?_ nofun⟩
  exact decide_eq_true split

theorem Parentage.later (parentage : Parentage given a kind parent) (extended : Extends given a b) :
    Parentage given b kind parent where
  member := parentage.member
  known p isParent := extended.keepsKnown (parentage.known p isParent)
  source p isParent := by
    obtain ⟨scope, n, issued, found, mem⟩ := parentage.source p isParent
    exact ⟨scope, n, issued, extended.keepsNode found, mem⟩
  language member := extended.dialect.trans (parentage.language member)

theorem newFunctionAccount (known : ∀ s ∈ optionSlots ret ++ plainSlots params, Known given a s)
    (returns : ret.isNone ↔ kind = .constructor ∨ kind = .destructor) (parentage : Parentage given a kind parent) :
    Account given e a (newFunction name ret params variadic lifecycle kind parent)
      (optionSlots ret ++ plainSlots params) fun f b =>
        b.Has (f.handle.as (.role .function)) ∧ (lifecycle = .split → b.Has (f.handle.as .splitFunction)) := by
  rw [newFunctionEq]
  refine .check (ownOptionChecks ret) fun own₁ => ?_
  refine .check (ownEachChecks params) fun own₂ => ?_
  refine .bind (startingBodyAccount lifecycle) fun body b extended _ ⟨split, has⟩ => ?_
  have own : ∀ s ∈ optionSlots ret ++ plainSlots params, s.Own b :=
    fun s mem => extended.keepsOwn.mpr (List.forall_mem_append.mpr ⟨own₁, own₂⟩ s mem)
  have born : Born given b (c := .decl) (.function (.fresh name ret params variadic lifecycle kind parent body)) :=
    freshBorn own (fun s mem => extended.keepsKnown (known s mem)) has split returns (parentage.later extended)
  exact (freshAccount born own).map fun _ _ _ has => has

end Fresh

theorem functionDeclAccount {name : QualName} {ret : TypeRef} {params : List DeclRef} {variadic : Bool}
    (known : ∀ s ∈ ret.plain :: plainSlots params, Known given a s) :
    Account given e a (functionDecl name ret params variadic) (ret.plain :: plainSlots params)
      fun f b => b.Has (f.handle.as (.role .function)) := by
  have made : Account given e a (functionDecl name ret params variadic) _ _ :=
    newFunctionAccount known (by simp) .none
  exact made.weaken id fun _ _ _ has => has.1

theorem templateDeclAccount {params : List DeclRef} {inner : DeclRef}
    (known : ∀ s ∈ inner.plain :: plainSlots params, Known given a s) :
    Account given e a (templateDecl params inner) (inner.plain :: plainSlots params) fun d b => b.Has d.plain := by
  unfold templateDecl
  refine .check (requireChecks _) fun language => ?_
  refine .check (ownEachChecks params) fun own₂ => ?_
  refine .check (ownChecks inner) fun own₁ => ?_
  exact .store (c := .decl) (List.forall_mem_append.mpr ⟨own₁, own₂⟩) known trivial
    (List.forall_mem_singleton.mpr language) rfl rfl

theorem rawTemplateDeclAccount (name : QualName) :
    Account given e a (rawTemplateDecl name) [] fun d b => b.Has d.plain := by
  unfold rawTemplateDecl
  refine .check (requireChecks _) fun language => ?_
  refine .bind (rawDeclAccount _) fun inner b extended _ has => ?_
  exact tagDeclAccount rfl has trivial (List.forall_mem_singleton.mpr (extended.dialect.trans language))

theorem rawInstantiationTypeAccount {name : QualName} {args : List TemplateArg}
    (known : ∀ s ∈ args.map (·.slot), Known given a s) :
    Account given e a (rawInstantiationType name args) (args.map (·.slot)) fun ty b => b.Has ty.plain := by
  unfold rawInstantiationType
  refine .bind (rawTemplateDeclAccount name) fun template b extended _ has => ?_
  have known' := List.forall_mem_cons.mpr ⟨.has has, fun s mem => extended.keepsKnown (known s mem)⟩
  exact (instantiationTypeAccount known').weaken (fun own => (List.forall_mem_cons.mp own).2) fun _ _ _ h => h

theorem newSynonymAccount {name : QualName} {aliased : TypeRef} {declare : TypeRef → DeclNode}
    (known : ∀ s ∈ [aliased.plain], Known given a s) (only : ∀ ty, (declare ty).slots = [ty.as .synonym])
    (initial : ∀ ty, (declare ty).Initial) (allowed : ∀ ty, ∀ f ∈ (declare ty).features, a.dialect = f.dialect) :
    Account given e a (newSynonym name aliased declare) [aliased.plain]
      fun r b => b.Has r.1.plain ∧ b.Has r.2.plain := by
  unfold newSynonym
  refine .check (ownChecks aliased) fun own => ?_
  have type : Account given .makes a (alloc .type (.synonym name aliased)) [aliased.plain]
      fun h b => b.Has (h.as .synonym) := .store (c := .type) own known rfl nofun rfl rfl
  refine .bind type fun ty b extended own hasType => ?_
  have decl : Account given e b (alloc .decl (declare ty)) [aliased.plain] fun d b => b.Has d.plain :=
    (tagDeclAccount (only ty) hasType (initial ty) fun f mem => extended.dialect.trans (allowed ty f mem)).weaken
      (fun _ => own) fun _ _ _ h => h
  exact decl.map fun d c later hasDecl => ⟨hasDecl, (later.keepsHas hasType).plain⟩

theorem variableAtIff {d : DeclRef} {data : VarDecl} :
    a.variableAt d = .ok data ↔ a.node d = .ok (.var data) := by
  unfold Arena.variableAt
  cases a.node d with
  | error cause => simp [bind, Except.bind]
  | ok n => cases n <;> simp [bind, Except.bind, pure, Except.pure]

theorem functionAtIff {d : DeclRef} {data : FuncDecl} :
    a.functionAt d = .ok data ↔ a.node d = .ok (.function data) := by
  unfold Arena.functionAt
  cases a.node d with
  | error cause => simp [bind, Except.bind]
  | ok n => cases n <;> simp [bind, Except.bind, pure, Except.pure]

theorem foundOwn {c : Category} {h : Handle c} {n : Node c} {shape : Shape} (found : a.node h = .ok n) :
    ∀ s ∈ [h.as shape], s.Own a :=
  List.forall_mem_singleton.mpr (nodeOwn found)

theorem setVarQualifiersAccount {d : DeclRef} {quals : VarQualifiers} :
    Account given .does a (setVarQualifiers d quals) [d.plain] fun _ _ => True := by
  unfold setVarQualifiers
  refine .check (requireIfChecks ..) fun restrict => ?_
  refine .check (requireIfChecks ..) fun inlined => ?_
  refine .read fun data found => ?_
  have here := variableAtIff.mp found
  refine .update here ⟨.varQualifiers data quals, fun s => .inl, ?_⟩ (foundOwn here) fun _ _ => trivial
  intro f mem
  simp only [Node.features, DeclNode.features, List.mem_append] at mem ⊢
  rcases mem with (old | new) | new
  · exact .inl (.inl (.inl old))
  · exact .inr (usedIfAllowed (P := fun f => a.dialect = f.dialect) inlined f new)
  · exact .inr (usedIfAllowed (P := fun f => a.dialect = f.dialect) restrict f new)

section Function

variable {f : FunctionRef}

theorem bodySlots {data : FuncDecl} {scope : ScopeRef} {s : Slot} (absent : data.body = none)
    (mem : s ∈ (DeclNode.function { data with body := some scope }).slots) :
    s ∈ (DeclNode.function data).slots ∨ s = scope.as (.place .function) := by
  simp only [DeclNode.slots, absent, Option.toList_some, Option.toList_none, List.map_cons, List.map_nil,
    List.mem_append, List.mem_singleton, List.not_mem_nil, or_false] at mem ⊢
  grind

theorem functionBodyAccount :
    Account given .does a (functionBody f) [f.handle.as (.role .function)] fun p b => Known given b p.slot := by
  unfold functionBody
  refine .read fun data found => ?_
  have here := functionAtIff.mp found
  dsimp only
  split
  · exact .throwBind
  rename_i fillable
  split
  · exact .throwBind
  rename_i special
  cases filled : data.body with
  | some body =>
    refine .pure (foundOwn here) (.stored (.node (Arena.nodeIff.mp here).2 ?_))
    simp [Node.slots, DeclNode.slots, filled, Place.slot]
  | none =>
    refine .bind .newBody fun body b extended _ has => ?_
    have again := extended.keepsNode here
    have plain : data.special = none := by
      cases known : data.special with
      | none => rfl
      | some mark => exact absurd known (special mark)
    refine .updateGive again ⟨.body data body filled fillable plain, ?_, fun f => .inl⟩ (foundOwn again)
      fun _ later => .has (later.keepsHas has)
    intro s mem
    rcases bodySlots filled mem with old | rfl
    · exact .inl old
    · exact .inr ⟨has.own, .has has⟩

theorem setFunctionQualifiersAccount {quals : FuncQualifiers} :
    Account given .does a (setFunctionQualifiers f quals) [f.handle.as (.role .function)] fun _ _ => True := by
  unfold setFunctionQualifiers
  refine .check (requireIfChecks ..) fun language => ?_
  refine .read fun data found => ?_
  have here := functionAtIff.mp found
  refine .update here ⟨.qualifiers data quals, fun s => .inl, ?_⟩ (foundOwn here) fun _ _ => trivial
  intro g mem
  rcases List.mem_append.mp mem with new | old
  · exact .inr (usedIfAllowed (P := fun f => a.dialect = f.dialect) language g new)
  · exact .inl (List.mem_append_right _ old)

theorem setMethodQualifiersAccount {quals : MethodQualifiers} :
    Account given .does a (setMethodQualifiers f quals) [f.handle.as (.role .function)] fun _ _ => True := by
  unfold setMethodQualifiers
  refine .read fun data found => ?_
  have here := functionAtIff.mp found
  have rest {m : Membership} (member : data.method = some m) (bodyless : quals.special.isSome → data.body = none) :
      Account given .does a (update f.handle (.function { data with method := some { m with quals := quals } }))
        [f.handle.as (.role .function)] fun _ _ => True := by
    refine .update here ⟨.methodQualifiers data m quals member bodyless, ?_, fun f => .inl⟩ (foundOwn here)
      fun _ _ => trivial
    intro s mem
    refine .inl ?_
    simpa [Node.slots, DeclNode.slots, member] using mem
  dsimp only
  split
  · split
    · exact .throwBind
    · rename_i bodyless
      cases member : data.method with
      | none => exact .throw
      | some m => exact rest member fun _ => by simpa using bodyless
  · rename_i plain
    cases member : data.method with
    | none => exact .throw
    | some m => exact rest member fun marked => absurd (Option.some_get marked).symm (plain _)

theorem markDefinedAccount :
    Account given .does a (markDefined f) [f.handle.as (.role .function)]
      fun _ b => b.Has (f.handle.as (.role .function)) := by
  unfold markDefined
  refine .read fun data found => ?_
  have here := functionAtIff.mp found
  dsimp only
  split
  · rename_i splits
    split
    · exact .throwBind
    · rename_i first
      have grows := DeclNode.Grows.defined data splits (by simpa using first)
      have has : a.Has (f.handle.as (.role .function)) :=
        ⟨nodeOwn here, _, (Arena.nodeIff.mp here).2, rfl, nofun⟩
      exact .update here ⟨grows, fun s => .inl, fun f => .inl⟩ (foundOwn here) fun _ later => later.keepsHas has
  · exact .throwBind

theorem addMemberInitAccount {member : QualName} {args : List ExprRef}
    (known : ∀ s ∈ plainSlots args, Known given a s) :
    Account given .does a (addMemberInit f member args) (f.handle.as (.role .function) :: plainSlots args)
      fun _ _ => True := by
  unfold addMemberInit
  refine .check (ownEachChecks args) fun own => ?_
  refine .read fun data found => ?_
  have here := functionAtIff.mp found
  dsimp only
  split
  · rename_i constructs
    refine .update here ⟨.init data _ constructs, ?_, fun f => .inl⟩
      (List.forall_mem_cons.mpr ⟨nodeOwn here, own⟩) fun _ _ => trivial
    intro s mem
    simp only [Node.slots, DeclNode.slots, List.flatMap_append, List.flatMap_cons, List.flatMap_nil,
      List.append_nil, ← List.append_assoc] at mem ⊢
    rcases List.mem_append.mp mem with old | new
    · exact .inl old
    · exact .inr ⟨own s new, known s new⟩
  · exact .throwBind

end Function

end CSource
