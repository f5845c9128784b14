import CSource.Proofs.Soundness

/-!
What a call can touch. `changed` lists the nodes that a call may change and `remarked` those whose comments it sets;
everything else that was in the arena is as it was after the call, whether it succeeds or is refused. A call with
nothing to touch is a factory: it stores new nodes only.
-/

namespace CSource

open Build

def TypeCall.changed : TypeCall → List NodeRef
  | members c | addRegion c _ | addBase c _ _ | setFinal c _ => [c.ty.ref]
  | addEnumMember e _ _ | setUnderlying e _ | setEnumKey e _ => [e.ty.ref]
  | _ => []

def DeclCall.changed : DeclCall → List NodeRef
  | setVarQualifiers d _ => [d.ref]
  | body f | setQualifiers f _ | setMethodQualifiers f _ | addMemberInit f _ _ => [f.handle.ref]
  | _ => []

def ExprCall.changed : ExprCall → List NodeRef
  | addAssociation g _ _ => [g.handle.ref]
  | _ => []

def GrowCall.changed : GrowCall → List NodeRef
  | addElseIf s _ _ | elseBranch s => [s.handle.ref]
  | addCase s _ _ => [s.handle.ref]
  | addHandler s _ => [s.handle.ref]
  | addElif _ c _ | elseOfConditional _ c => [c.handle.ref]

def TopLevelCall.changed : TopLevelCall → List NodeRef
  | defineFunction f => [f.handle.ref]
  | _ => []

namespace Call

def changed : Call → List NodeRef
  | type call => call.changed
  | decl call => call.changed
  | expr call => call.changed
  | grow call => call.changed
  | putAny p _ | putTag p _ _ | putStmt p _ _ | putDirective p _ _ _ | putMember p _ _ => [p.scope.ref]
  | putTopLevel p _ call => p.scope.ref :: call.changed
  | _ => []

def remarked : Call → List NodeRef
  | commentBefore r _ | commentAfter r _ => [r]
  | _ => []

def isFactory (call : Call) : Bool := call.changed.isEmpty && call.remarked.isEmpty

theorem isFactoryIff {call : Call} : call.isFactory = true ↔ call.changed = [] ∧ call.remarked = [] := by
  simp [isFactory]

end Call

theorem refInjective {c : Category} {g h : Handle c} (same : g.ref = h.ref) : g = h := by
  cases g
  cases h
  simpa [Handle.ref] using same

def Node.Unmarked : (c : Category) → Node c → Prop
  | .decl, .function f => f.defined = false
  | _, _ => True

/-- What was in the arena is there unchanged, but for the nodes in `S` and the comments of those in `C`. No other
function has become defined. -/
structure Frame (S C : List NodeRef) (a b : Arena) : Prop where
  number : b.number = a.number
  dialect : b.dialect = a.dialect
  node : ∀ {c : Category} {h : Handle c} {n : Node c}, h.ref ∉ S → a.node h = .ok n → b.node h = .ok n
  comments : ∀ {r : NodeRef}, r ∉ C → b.commentsOf r = a.commentsOf r
  shared : ∀ t : Table, t.entries a <+: t.entries b
  marked : ∀ {h : DeclRef} {f : FuncDecl}, h.ref ∉ S → b.node h = .ok (.function f) → f.defined = true →
    a.node h = .ok (.function f)

namespace Frame

variable {S C : List NodeRef} {a b c : Arena}

theorem refl : Frame S C a a :=
  ⟨rfl, rfl, fun _ => id, fun _ => rfl, fun _ => List.prefix_refl _, fun _ found _ => found⟩

theorem trans (first : Frame S C a b) (second : Frame S C b c) : Frame S C a c where
  number := second.number.trans first.number
  dialect := second.dialect.trans first.dialect
  node apart found := second.node apart (first.node apart found)
  comments apart := (second.comments apart).trans (first.comments apart)
  shared t := (first.shared t).trans (second.shared t)
  marked apart found defined := first.marked apart (second.marked apart found defined) defined

theorem pushedFunction {c : Category} {n : Node c} (unmarked : Node.Unmarked c n) {h : DeclRef} {f : FuncDecl}
    (found : (a.push c n).node h = .ok (.function f)) (defined : f.defined = true) :
    a.node h = .ok (.function f) := by
  rw [Arena.nodeIff] at found ⊢
  refine ⟨by simpa using found.1, ?_⟩
  have there := found.2
  by_cases isDecl : c = .decl
  · subst isDecl
    rw [Arena.nodesPush, Array.getElem?_push] at there
    split at there
    · cases Option.some.inj there
      have unmarked : f.defined = false := unmarked
      simp [unmarked] at defined
    · exact there
  · rwa [Arena.nodesPushOther a isDecl] at there

theorem push {c : Category} {n : Node c} (unmarked : Node.Unmarked c n) : Frame S C a (a.push c n) where
  number := by simp
  dialect := by simp
  node _ found := Arena.nodePushKeeps n found
  comments _ := by simp [Arena.commentsOf]
  shared t := by simp [Table.entries]
  marked _ := pushedFunction unmarked

theorem stored {given : Slot → Prop} (extended : Extends given a b) : Frame S C a b := by
  induction extended with
  | refl => exact refl
  | @push b c before n born ih =>
    have unmarked : Node.Unmarked c n := by
      cases c with
      | decl =>
        cases n with
        | function f => exact FuncDecl.Initial.defined born.initial
        | _ => trivial
      | _ => trivial
    exact ih.trans (push unmarked)

theorem extend (t : Table) (key : t.Key) : Frame S C a (t.extend key a) where
  number := by simp
  dialect := by simp
  node {c h n} _ found := by
    rw [Arena.nodeIff] at found ⊢
    rw [Table.nodesExtend]
    exact ⟨by simpa using found.1, Arena.pushKeeps _ found.2⟩
  comments _ := by simp [Arena.commentsOf]
  shared u := by
    by_cases same : t = u
    · subst same
      rw [Table.entriesExtend]
      exact List.prefix_append ..
    · simp only [Table.entriesExtendOther same, List.prefix_refl]
  marked _ found _ := found

theorem replace {c : Category} {h : Handle c} (inside : h.ref ∈ S) (own : h.arena = a.number) (n : Node c) :
    Frame S C a (a.replace h n) where
  number := by simp
  dialect := by simp
  node {d g m} apart found := by
    rw [Arena.nodeIff] at found ⊢
    refine ⟨by simpa using found.1, ?_⟩
    by_cases same : c = d
    · subst d
      have other : h.index ≠ g.index := by
        intro hit
        have equal : g.ref = h.ref := by simp [Handle.ref, hit, found.1, own]
        exact apart (equal ▸ inside)
      rw [Arena.nodesReplace, Array.getElem?_setIfInBounds_ne other]
      exact found.2
    · rw [Arena.nodesReplaceOther a same]
      exact found.2
  comments _ := by simp [Arena.commentsOf]
  shared t := by simp [Table.entries]
  marked {g f} apart found _ := by
    rw [Arena.nodeIff] at found ⊢
    refine ⟨by simpa using found.1, ?_⟩
    have there := found.2
    by_cases isDecl : c = .decl
    · subst isDecl
      have other : h.index ≠ g.index := by
        intro hit
        have equal : g.ref = h.ref := by simp [Handle.ref, hit, own, show g.arena = a.number by simpa using found.1]
        exact apart (equal ▸ inside)
      rwa [Arena.nodesReplace, Array.getElem?_setIfInBounds_ne other] at there
    · rwa [Arena.nodesReplaceOther a isDecl] at there

theorem sizes (frame : Frame [] [] a b) (c : Category) : (a.nodes c).size ≤ (b.nodes c).size := by
  refine Nat.le_of_not_lt fun short => ?_
  have found : a.node (⟨a.number, (b.nodes c).size⟩ : Handle c) = .ok (a.nodes c)[(b.nodes c).size] :=
    Arena.nodeIff.mpr ⟨rfl, Array.getElem?_eq_getElem short⟩
  have kept := (Arena.nodeIff.mp (frame.node (List.not_mem_nil) found)).2
  simp at kept

theorem upsertLookup {key r : NodeRef} (ne : r ≠ key) (fresh : Comments) (f : Comments → Comments)
    (table : List (NodeRef × Comments)) : (Arena.upsert key fresh f table).lookup r = table.lookup r := by
  have differs : (r == key) = false := beq_false_of_ne ne
  induction table with
  | nil => simp [Arena.upsert, List.lookup_cons, differs]
  | cons entry table ih =>
    obtain ⟨k, v⟩ := entry
    unfold Arena.upsert
    split
    · rename_i same
      subst same
      simp [List.lookup_cons, differs]
    · simp [List.lookup_cons, ih]

theorem setComments {r : NodeRef} (inside : r ∈ C) (f : Comments → Comments) : Frame S C a (a.setComments r f) where
  number := rfl
  dialect := rfl
  node {c h n} _ found := by
    rw [Arena.nodeIff] at found ⊢
    rw [Arena.nodesSetComments]
    exact found
  comments {r'} apart := upsertLookup (fun same : r' = r => apart (same ▸ inside)) _ f a.comments
  shared _ := List.prefix_refl _
  marked _ found _ := found

end Frame

def Build.after {α : Type} (m : Build α) (a : Arena) : Arena :=
  match m.run a with
  | .ok _ b | .error _ b => b

/-- On arenas with number `N`, the action keeps to what it may touch. -/
def Confined {α : Type} (N : Nat) (S C : List NodeRef) (m : Build α) : Prop :=
  ∀ a : Arena, a.number = N → Frame S C a (m.after a)

namespace Confined

variable {N : Nat} {S C : List NodeRef} {α β : Type} {m : Build α} {f : α → Build β}

theorem pure {x : α} : Confined N S C (Pure.pure x) := fun _ _ => .refl

theorem throw {cause : Misuse} : Confined N S C (throw cause : Build α) := fun _ _ => .refl

theorem throwBind {cause : Misuse} : Confined N S C ((MonadExcept.throw cause : Build α) >>= f) := fun _ _ => .refl

theorem bind (first : Confined N S C m) (rest : ∀ x, Confined N S C (f x)) : Confined N S C (m >>= f) := by
  intro a numbered
  have before := first a numbered
  unfold after at before ⊢
  rw [EStateM.run_bind]
  cases ran : m.run a with
  | error cause b =>
    rw [ran] at before
    exact before
  | ok x b =>
    rw [ran] at before
    exact before.trans (rest x b (before.number.trans numbered))

theorem map {g : α → β} (first : Confined N S C m) : Confined N S C (g <$> m) := by
  rw [map_eq_pure_bind]
  exact first.bind fun _ => pure

theorem silently {act : Build Unit} (first : Confined N S C act) : Confined N S C (silently act) :=
  first.bind fun _ => pure

theorem discard (first : Confined N S C m) : Confined N S C (Functor.discard m) := by
  rw [Functor.discard, map_const]
  exact first.map

theorem checks {m : Build Unit} {P : Arena → Prop} (checked : ∀ a, Checks m a (P a)) : Confined N S C m := by
  intro a _
  unfold after
  rcases checked a with ⟨ran, _⟩ | ⟨cause, ran⟩ <;>
  · rw [ran]
    exact .refl

theorem own {c : Category} {h : Handle c} : Confined N S C (own h) := checks fun _ => ownChecks h

theorem ownEach {c : Category} {hs : List (Handle c)} : Confined N S C (ownEach hs) :=
  checks fun _ => ownEachChecks hs

theorem ownOption {c : Category} {h : Option (Handle c)} : Confined N S C (ownOption h) :=
  checks fun _ => ownOptionChecks h

theorem require {f : Feature} : Confined N S C (require f) := checks fun _ => requireChecks f

theorem requireIf {condition : Bool} {f : Feature} : Confined N S C (requireIf condition f) :=
  checks fun _ => requireIfChecks condition f

theorem read {g : Arena → Except Misuse α}
    (rest : ∀ x a, a.number = N → g a = .ok x → Confined N S C (f x)) : Confined N S C (read g >>= f) := by
  intro a numbered
  unfold after
  rw [EStateM.run_bind, runRead]
  cases found : g a with
  | error cause => exact .refl
  | ok x => exact rest x a numbered found a numbered

theorem update {c : Category} {h : Handle c} {n : Node c} (inside : h.ref ∈ S) (own : h.arena = N) :
    Confined N S C (update h n) :=
  fun _ numbered => .replace inside (own.trans numbered.symm) n

theorem request (t : Table) {key : t.Key} : Confined N S C (t.request key) := by
  intro a _
  unfold after
  rw [Table.runRequest]
  cases (t.entries a).lookup key with
  | some ty => exact .refl
  | none => exact .extend t key

theorem alloc {c : Category} {n : Node c} (unmarked : Node.Unmarked c n) : Confined N S C (alloc c n) :=
  fun _ _ => .push unmarked

theorem made {args : List Slot} {post : α → Arena → Prop}
    (account : ∀ a, Account (fun _ => True) .makes a m args post) : Confined N S C m := by
  intro a _
  have kept := account a
  unfold Account at kept
  unfold after
  cases ran : m.run a with
  | ok x b =>
    rw [ran] at kept
    exact .stored kept.1
  | error cause b =>
    rw [ran] at kept
    exact .stored kept

theorem succeeded {a b : Arena} {x : α} (confined : Confined a.number S C m) (ran : m.run a = .ok x b) :
    Frame S C a b := by
  have frame := confined a rfl
  unfold after at frame
  rwa [ran] at frame

theorem refused {a b : Arena} {cause : Misuse} (confined : Confined a.number S C m) (ran : m.run a = .error cause b) :
    Frame S C a b := by
  have frame := confined a rfl
  unfold after at frame
  rwa [ran] at frame

end Confined

section Builders

variable {N : Nat} {S C : List NodeRef} {scope : ScopeRef}

theorem allKnown {a : Arena} {ss : List Slot} : ∀ s ∈ ss, Known (fun _ => True) a s := fun _ _ => .given trivial

theorem modifyAggregateConfined {ty : TypeRef} {f : Aggregate → Aggregate} (inside : ty.ref ∈ S) :
    Confined N S C (modifyAggregate ty f) :=
  .read fun _ _ numbered found => .update inside ((nodeOwn (aggregateAtIff.mp found)).trans numbered)

theorem modifyEnumConfined {ty : TypeRef} {f : Enumeration → Enumeration} (inside : ty.ref ∈ S) :
    Confined N S C (modifyEnum ty f) := by
  refine .read fun n a numbered found => ?_
  cases n <;> first | exact .throw | exact .update inside ((nodeOwn found).trans numbered)

theorem pushEntryConfined {e : Entry} (inside : scope.ref ∈ S) : Confined N S C (pushEntry scope e) := by
  refine .bind (.checks fun _ => ownEntryChecks e) fun _ => ?_
  exact .read fun _ _ numbered found => .update inside ((nodeOwn found).trans numbered)

theorem pushDeclConfined {d : DeclRef} (inside : scope.ref ∈ S) : Confined N S C (pushDecl scope d) :=
  .bind (pushEntryConfined inside) fun _ => .pure

theorem pushDeclStmtConfined {d : DeclRef} (inside : scope.ref ∈ S) : Confined N S C (pushDeclStmt scope d) := by
  refine .bind (.made fun _ => declStmtAccount allKnown) fun _ => ?_
  exact .bind (pushEntryConfined inside) fun _ => .pure

theorem placeStmtConfined {n : StmtNode} (inside : scope.ref ∈ S) : Confined N S C (placeStmt scope n) :=
  .bind (.alloc trivial) fun _ => .bind (pushEntryConfined inside) fun _ => .pure

theorem placeDirectiveConfined {n : DirectiveNode} (inside : scope.ref ∈ S) :
    Confined N S C (placeDirective scope n) :=
  .bind (.alloc trivial) fun _ => .bind (pushEntryConfined inside) fun _ => .pure

theorem placeExprConfined {e : ExprRef} (inside : scope.ref ∈ S) : Confined N S C (placeExpr scope e) :=
  .bind .own fun _ => placeStmtConfined inside

theorem placeForConfined {init : Option StmtRef} {cond step : Option ExprRef} (inside : scope.ref ∈ S) :
    Confined N S C (placeFor scope init cond step) :=
  .bind .ownOption fun _ => .bind .ownOption fun _ => .bind .ownOption fun _ => .bind (.alloc trivial) fun _ =>
    .bind (placeStmtConfined inside) fun _ => .pure

theorem placeNamedCallConfined {callee : String} {args : List ExprRef} (inside : scope.ref ∈ S) :
    Confined N S C (placeNamedCall scope callee args) :=
  .bind (.alloc trivial) fun _ => .bind (.made fun _ => callExprAccount allKnown) fun _ => placeExprConfined inside

theorem placeFunctionConfined {lifecycle : Lifecycle} {f : FunctionRef} (inside : scope.ref ∈ S) :
    Confined N S C (placeFunction scope lifecycle f) := by
  unfold placeFunction
  split
  · exact .bind (.alloc trivial) fun _ => .bind (.discard (pushDeclConfined inside)) fun _ => .pure
  · exact .bind (.discard (pushDeclConfined inside)) fun _ => .pure

theorem newFunctionConfined {name : QualName} {ret : Option TypeRef} {params : List DeclRef} {variadic : Bool}
    {lifecycle : Lifecycle} {kind : FuncKind} {parent : Option TypeRef} :
    Confined N S C (newFunction name ret params variadic lifecycle kind parent) := by
  rw [newFunctionEq]
  refine .bind .ownOption fun _ => .bind .ownEach fun _ => .bind ?_ fun _ => .bind (.alloc rfl) fun _ => .pure
  exact .made fun _ => startingBodyAccount lifecycle

theorem newMemberConfined {name : String} {ret : Option TypeRef} {params : List DeclRef} {variadic : Bool}
    {lifecycle : Lifecycle} {kind : FuncKind} :
    Confined N S C (newMember scope name ret params variadic lifecycle kind) := by
  refine .bind .require fun _ => .bind ?_ fun _ => newFunctionConfined
  refine .read fun n _ _ _ => ?_
  cases n.kind <;> first | exact .throw | exact .pure

theorem classNameOfConfined : Confined N S C (classNameOf scope) := by
  refine .bind ?_ fun _ => .read fun _ _ _ _ => .pure
  refine .read fun n _ _ _ => ?_
  cases n.kind <;> first | exact .throw | exact .pure

theorem newSynonymConfined {name : QualName} {aliased : TypeRef} {declare : TypeRef → DeclNode}
    (unmarked : ∀ ty, Node.Unmarked .decl (declare ty)) : Confined N S C (newSynonym name aliased declare) :=
  .bind .own fun _ => .bind (.alloc trivial) fun ty => .bind (.alloc (unmarked ty)) fun _ => .pure

theorem conditionalConfined {β : Type} {branch : BranchKind} {c : Typed (.conditional branch)}
    {f : Conditional → Build β} (rest : ∀ data, c.handle.arena = N → Confined N S C (f data)) :
    Confined N S C (readConditional c >>= f) := by
  unfold readConditional
  rw [bind_assoc]
  refine .read fun n _ numbered found => ?_
  cases n <;> first | exact .throwBind | exact rest _ ((nodeOwn found).trans numbered)

theorem templateDeclConfined {params : List DeclRef} {inner : DeclRef} :
    Confined N S C (templateDecl params inner) :=
  .made fun _ => templateDeclAccount allKnown

end Builders

section Calls

variable {N : Nat} {S C : List NodeRef} {scope : ScopeRef}

theorem TypeCall.confined (call : TypeCall) (inside : call.changed ⊆ S) : Confined N S C call.perform := by
  have touched (r : NodeRef) (mem : r ∈ call.changed) : r ∈ S := inside mem
  cases call with
  | primitive | raw => exact .map (.request .raw)
  | auto => exact .map (.bind .require fun _ => .request .raw)
  | pointer => exact .map (.bind .own fun _ => .request .pointer)
  | reference => exact .map (.bind .require fun _ => .bind .own fun _ => .request .reference)
  | array => exact .map (.bind .own fun _ => .bind .ownEach fun _ => .request .array)
  | named | namedClass | namedEnum => exact .map (.bind .own fun _ => .request .named)
  | parameter keyword => exact .map (.made fun _ => typeParameterAccount keyword)
  | function => exact .map (.made fun _ => functionTypeAccount allKnown)
  | instantiation => exact .map (.made fun _ => instantiationTypeAccount allKnown)
  | rawInstantiation => exact .map (.made fun _ => rawInstantiationTypeAccount allKnown)
  | pack => exact .map (.made fun _ => packTypeAccount allKnown)
  | newAggregate kind name => exact .map (.made fun _ => newAggregateAccount kind name)
  | newEnum name key => exact .map (.made fun _ => newEnumAccount name key)
  | forwardClass | forwardEnum => exact .map (.alloc trivial)
  | members c =>
    refine .map (.read fun data _ _ _ => ?_)
    cases data.defaultScope with
    | some scope => exact .pure
    | none =>
      refine .bind (.alloc trivial) fun _ => .bind ?_ fun _ => .pure
      exact modifyAggregateConfined (touched _ (List.mem_singleton_self _))
  | addRegion c access =>
    refine .map (.bind .require fun _ => .bind (.alloc trivial) fun _ => .bind ?_ fun _ => .pure)
    exact modifyAggregateConfined (touched _ (List.mem_singleton_self _))
  | addBase c access base =>
    refine .silently (.bind .require fun _ => .bind .own fun _ => ?_)
    exact modifyAggregateConfined (touched _ (List.mem_singleton_self _))
  | setFinal c isFinal =>
    exact .silently (.bind .require fun _ => modifyAggregateConfined (touched _ (List.mem_singleton_self _)))
  | addEnumMember e name value =>
    exact .silently (.bind .ownOption fun _ => modifyEnumConfined (touched _ (List.mem_singleton_self _)))
  | setUnderlying e ty =>
    exact .silently (.bind .own fun _ => modifyEnumConfined (touched _ (List.mem_singleton_self _)))
  | setEnumKey e key =>
    exact .silently (.bind .require fun _ => modifyEnumConfined (touched _ (List.mem_singleton_self _)))

theorem DeclCall.confined (call : DeclCall) (inside : call.changed ⊆ S) : Confined N S C call.perform := by
  have touched (r : NodeRef) (mem : r ∈ call.changed) : r ∈ S := inside mem
  cases call with
  | raw => exact .map (.alloc trivial)
  | var => exact .map (.made fun _ => varDeclAccount allKnown)
  | arrayVar => exact .map (.made fun _ => arrayVarDeclAccount allKnown)
  | constructedVar => exact .map (.made fun _ => constructedVarDeclAccount allKnown)
  | function => exact .map newFunctionConfined
  | template => exact .map templateDeclConfined
  | rawTemplate name => exact .map (.made fun _ => rawTemplateDeclAccount name)
  | setVarQualifiers d quals =>
    refine .silently (.bind .requireIf fun _ => .bind .requireIf fun _ => .read fun _ _ numbered found => ?_)
    exact .update (touched _ (List.mem_singleton_self _)) ((nodeOwn (variableAtIff.mp found)).trans numbered)
  | body f =>
    refine .map (.read fun data _ numbered found => ?_)
    have own := (nodeOwn (functionAtIff.mp found)).trans numbered
    dsimp only
    split
    · exact .throwBind
    split
    · exact .throwBind
    cases data.body with
    | some scope => exact .pure
    | none =>
      refine .bind (.alloc trivial) fun _ => .bind (.update ?_ own) fun _ => .pure
      exact touched _ (List.mem_singleton_self _)
  | setQualifiers f quals =>
    refine .silently (.bind .requireIf fun _ => .read fun _ _ numbered found => ?_)
    exact .update (touched _ (List.mem_singleton_self _)) ((nodeOwn (functionAtIff.mp found)).trans numbered)
  | setMethodQualifiers f quals =>
    refine .silently (.read fun data _ numbered found => ?_)
    have own := (nodeOwn (functionAtIff.mp found)).trans numbered
    dsimp only
    split
    · split
      · exact .throwBind
      · cases data.method <;> first | exact .throw | exact .update (touched _ (List.mem_singleton_self _)) own
    · cases data.method <;> first | exact .throw | exact .update (touched _ (List.mem_singleton_self _)) own
  | addMemberInit f member args =>
    refine .silently (.bind .ownEach fun _ => .read fun data _ numbered found => ?_)
    have own := (nodeOwn (functionAtIff.mp found)).trans numbered
    dsimp only
    split
    · exact .update (touched _ (List.mem_singleton_self _)) own
    · exact .throwBind

theorem ExprCall.confined (call : ExprCall) (inside : call.changed ⊆ S) : Confined N S C call.perform := by
  cases call with
  | raw => exact .map (.alloc trivial)
  | literal l => exact .map (.made fun _ => literalExprAccount l)
  | var => exact .map (.made fun _ => varExprAccount allKnown)
  | typeName => exact .map (.made fun _ => typeExprAccount allKnown)
  | subscript => exact .map (.made fun _ => subscriptExprAccount allKnown)
  | call => exact .map (.made fun _ => callExprAccount allKnown)
  | unary | operator => exact .map (.made fun _ => unaryExprAccount allKnown)
  | postfixed => exact .map (.made fun _ => postfixExprAccount allKnown)
  | binary | compare => exact .map (.made fun _ => binaryExprAccount allKnown)
  | ternary => exact .map (.made fun _ => ternaryExprAccount allKnown)
  | cast => exact .map (.made fun _ => castExprAccount allKnown)
  | paren => exact .map (.made fun _ => parenExprAccount allKnown)
  | initList => exact .map (.made fun _ => initListExprAccount allKnown)
  | designated => exact .map (.made fun _ => designatedExprAccount allKnown)
  | generic => exact .map (.made fun _ => genericExprAccount allKnown)
  | qualName name => exact .map (.made fun _ => qualNameExprAccount name)
  | lambda => exact .map (.made fun _ => lambdaExprAccount allKnown)
  | new => exact .map (.made fun _ => newExprAccount allKnown)
  | delete => exact .map (.made fun _ => deleteExprAccount allKnown)
  | userLiteral => exact .map (.made fun _ => userLiteralExprAccount allKnown)
  | instantiation => exact .map (.made fun _ => instantiationExprAccount allKnown)
  | rawInstantiation => exact .map (.made fun _ => rawInstantiationExprAccount allKnown)
  | packExpansion => exact .map (.made fun _ => packExpansionExprAccount allKnown)
  | fold => exact .map (.made fun _ => foldExprAccount allKnown)
  | select => exact .map (.made fun _ => selectExprAccount allKnown)
  | sizeof => exact .map (.made fun _ => sizeofExprAccount allKnown)
  | vaArg => exact .map (.made fun _ => vaArgExprAccount allKnown)
  | short x => exact .map (.made fun _ => operandAccount x allKnown)
  | shortUnary => exact .map (.made fun _ => shortUnaryAccount allKnown)
  | shortPostfix => exact .map (.made fun _ => shortPostfixAccount allKnown)
  | shortBinary => exact .map (.made fun _ => shortBinaryAccount allKnown)
  | shortCall => exact .map (.made fun _ => shortCallAccount allKnown)
  | shortIndex => exact .map (.made fun _ => shortIndexAccount allKnown)
  | addAssociation g ty value =>
    refine .silently (.bind .ownOption fun _ => .bind .own fun _ => .read fun n _ numbered found => ?_)
    have own := (nodeOwn found).trans numbered
    cases n <;> first | exact .throw | exact .update (inside (List.mem_singleton_self _)) own

theorem modifyIfConfined {s : Typed .ifElse} {f : IfStmt → IfStmt} (inside : s.handle.ref ∈ S) :
    Confined N S C (modifyIf s f) := by
  refine .read fun n _ numbered found => ?_
  cases n <;> first | exact .throw | exact .update inside ((nodeOwn found).trans numbered)

theorem GrowCall.confined (call : GrowCall) (inside : call.changed ⊆ S) : Confined N S C call.perform := by
  cases call with
  | addElseIf s init cond =>
    refine .map (.bind .requireIf fun _ => .bind .ownOption fun _ => .bind .own fun _ => ?_)
    exact .bind (.alloc trivial) fun _ => .bind (modifyIfConfined (inside (List.mem_singleton_self _))) fun _ => .pure
  | elseBranch s =>
    refine .map (.read fun n _ _ _ => ?_)
    cases n with
    | ifElse data =>
      dsimp only
      cases data.otherwise with
      | some scope => exact .pure
      | none =>
        refine .bind (.alloc trivial) fun _ => .bind (modifyIfConfined ?_) fun _ => .pure
        exact inside (List.mem_singleton_self _)
    | _ => exact .throw
  | addCase s value fallthrough =>
    refine .map (.bind .ownOption fun _ => .bind (.alloc trivial) fun _ => .bind (.alloc trivial) fun _ => ?_)
    refine .read fun n _ numbered found => ?_
    have own := (nodeOwn found).trans numbered
    cases n <;> first
      | exact .throwBind
      | exact .bind (.update (inside (List.mem_singleton_self _)) own) fun _ => .pure
  | addHandler s decl =>
    refine .map (.bind .ownOption fun _ => .bind (.alloc trivial) fun _ => .read fun n _ numbered found => ?_)
    have own := (nodeOwn found).trans numbered
    cases n <;> first
      | exact .throwBind
      | exact .bind (.update (inside (List.mem_singleton_self _)) own) fun _ => .pure
  | addElif branch c cond =>
    refine .map (.bind .own fun _ => conditionalConfined fun data own => .bind (.alloc trivial) fun _ => ?_)
    exact .bind (.update (inside (List.mem_singleton_self _)) own) fun _ => .pure
  | elseOfConditional branch c =>
    refine .map (conditionalConfined fun data own => ?_)
    cases data.otherwise with
    | some scope => exact .pure
    | none =>
      refine .bind (.alloc trivial) fun _ => .bind (.update ?_ own) fun _ => .pure
      exact inside (List.mem_singleton_self _)

theorem placedConfined {d : DeclRef} {α : Type} {x : α} (inside : scope.ref ∈ S) :
    Confined N S C (Functor.discard (pushDeclStmt scope d) >>= fun _ => pure x) :=
  .bind (.discard (pushDeclStmtConfined inside)) fun _ => .pure

theorem AnyCall.confined (call : AnyCall) (inside : scope.ref ∈ S) : Confined N S C (call.perform scope) := by
  cases call with
  | entry => exact .silently (pushEntryConfined inside)
  | decl => exact .map (pushDeclConfined inside)
  | stmt | directive => exact .map (.bind (pushEntryConfined inside) fun _ => .pure)
  | declStmt => exact .map (pushDeclStmtConfined inside)
  | raw => exact .map (.bind (.alloc trivial) fun _ => pushDeclConfined inside)
  | var => exact .map (.bind (.made fun _ => varDeclAccount allKnown) fun _ => pushDeclStmtConfined inside)
  | arrayVar => exact .map (.bind (.made fun _ => arrayVarDeclAccount allKnown) fun _ => pushDeclStmtConfined inside)
  | constructedVar =>
    exact .map (.bind (.made fun _ => constructedVarDeclAccount allKnown) fun _ => pushDeclStmtConfined inside)
  | typeDef => exact .map (.bind (newSynonymConfined fun _ => trivial) fun _ => placedConfined inside)
  | usingType =>
    refine .map (.bind .require fun _ => .bind (newSynonymConfined fun _ => trivial) fun _ => ?_)
    exact placedConfined inside
  | varTemplate =>
    refine .map (.bind (.made fun _ => varDeclAccount allKnown) fun _ => .bind templateDeclConfined fun _ => ?_)
    exact placedConfined inside
  | usingTemplate =>
    refine .map (.bind .require fun _ => .bind (newSynonymConfined fun _ => trivial) fun _ => ?_)
    exact .bind templateDeclConfined fun _ => placedConfined inside

theorem TagCall.confined (call : TagCall) (inside : scope.ref ∈ S) : Confined N S C (call.perform scope) := by
  cases call with
  | aggregate kind name =>
    exact .map (.bind (.made fun _ => newAggregateAccount kind name) fun _ => placedConfined inside)
  | enumeration name key =>
    exact .map (.bind (.made fun _ => newEnumAccount name key) fun _ => placedConfined inside)
  | aggregateTemplate kind name templateParams =>
    refine .map (.bind .require fun _ => .bind (.made fun _ => newAggregateAccount kind name) fun _ => ?_)
    exact .bind templateDeclConfined fun _ => placedConfined inside
  | declareAggregate | declareEnum => exact .map (.bind (.alloc trivial) fun _ => pushDeclStmtConfined inside)

theorem StmtCall.confined (call : StmtCall) (inside : scope.ref ∈ S) : Confined N S C (call.perform scope) := by
  have placed {n : StmtNode} : Confined N S C (placeStmt scope n) := placeStmtConfined inside
  have written {e : ExprRef} : Confined N S C (placeExpr scope e) := placeExprConfined inside
  have looped {init : Option StmtRef} {cond step : Option ExprRef} : Confined N S C (placeFor scope init cond step) :=
    placeForConfined inside
  cases call with
  | raw | empty | breakLoop | continueLoop | label | goto => exact .map placed
  | decl =>
    refine .map (.bind (.made fun _ => declStmtAccount allKnown) fun _ => ?_)
    exact .bind (pushEntryConfined inside) fun _ => .pure
  | expr => exact .map written
  | ifElse =>
    refine .map (.bind .requireIf fun _ => .bind .requireIf fun _ => .bind .ownOption fun _ => .bind .own fun _ => ?_)
    exact .bind (.alloc trivial) fun _ => .bind placed fun _ => .pure
  | whileLoop | doWhile => exact .map (.bind .own fun _ => .bind (.alloc trivial) fun _ => .bind placed fun _ => .pure)
  | forLoop => exact .map looped
  | forDecl => exact .map (.bind (.made fun _ => declStmtAccount allKnown) fun _ => looped)
  | forExpr => exact .map (.bind .own fun _ => .bind (.alloc trivial) fun _ => looped)
  | forRange =>
    refine .map (.bind .require fun _ => .bind .own fun _ => .bind .own fun _ => .bind (.alloc trivial) fun _ => ?_)
    exact .bind placed fun _ => .pure
  | block => exact .map (.bind (.alloc trivial) fun _ => .bind (.discard placed) fun _ => .pure)
  | returnValue => exact .map (.bind .ownOption fun _ => placed)
  | labeledExpr => exact .map (.bind .own fun _ => .bind (.alloc trivial) fun _ => placed)
  | switch =>
    refine .map (.bind .requireIf fun _ => .bind .ownOption fun _ => .bind .own fun _ => ?_)
    exact .bind placed fun _ => .pure
  | throwValue => exact .map (.bind .require fun _ => .bind .ownOption fun _ => placed)
  | tryCatch => exact .map (.bind .require fun _ => .bind (.alloc trivial) fun _ => .bind placed fun _ => .pure)
  | usingNamespace => exact .map (.bind .require fun _ => placed)
  | assign => exact .map (.bind (.made fun _ => binaryExprAccount allKnown) fun _ => written)
  | call => exact .map (.bind (.made fun _ => callExprAccount allKnown) fun _ => written)
  | delete => exact .map (.bind (.made fun _ => deleteExprAccount allKnown) fun _ => written)
  | vaList =>
    refine .map (.bind (.request .raw) fun _ => .bind (.made fun _ => varDeclAccount allKnown) fun _ => ?_)
    exact pushDeclStmtConfined inside
  | vaStart | vaCopy | vaEnd => exact .map (placeNamedCallConfined inside)

theorem DirectiveCall.confined (call : DirectiveCall) (branch : BranchKind) (inside : scope.ref ∈ S) :
    Confined N S C (call.perform scope branch) := by
  have placed {n : DirectiveNode} : Confined N S C (placeDirective scope n) := placeDirectiveConfined inside
  have repeated {piece : String} {count : Nat} : Confined N S C (placeRepeated scope piece count) := by
    unfold placeRepeated
    split
    · exact .throwBind
    · exact placed
  cases call with
  | conditional head =>
    refine .map (.bind (.checks fun _ => ownConditionChecks head) fun _ => .bind (.alloc trivial) fun _ => ?_)
    exact .bind placed fun _ => .pure
  | defineFunction => exact .map (.bind (.alloc trivial) fun _ => .bind placed fun _ => .pure)
  | newlines | spaces | tabs => exact .map repeated
  | _ => exact .map placed

theorem TopLevelCall.confined (call : TopLevelCall) (inside : scope.ref ∈ S) (changed : call.changed ⊆ S) :
    Confined N S C (call.perform scope) := by
  have placed {n : DirectiveNode} : Confined N S C (placeDirective scope n) := placeDirectiveConfined inside
  cases call with
  | function => exact .map (.bind newFunctionConfined fun _ => placeFunctionConfined inside)
  | defineFunction f =>
    refine .map (.bind .own fun _ => .bind ?_ fun _ => .bind (.discard (pushDeclConfined inside)) fun _ => .pure)
    refine .read fun data _ numbered found => ?_
    have own := (nodeOwn (functionAtIff.mp found)).trans numbered
    dsimp only
    split
    · split
      · exact .throwBind
      · exact .update (changed (List.mem_singleton_self _)) own
    · exact .throwBind
  | functionTemplate =>
    refine .map (.bind newFunctionConfined fun _ => .bind templateDeclConfined fun _ => ?_)
    exact .bind (.discard (pushDeclConfined inside)) fun _ => .pure
  | namespaceBlock => exact .map (.bind .require fun _ => .bind (.alloc trivial) fun _ => .bind placed fun _ => .pure)
  | usingNamespace | usingName => exact .map (.bind .require fun _ => placed)

theorem MemberCall.confined (call : MemberCall) (inside : scope.ref ∈ S) :
    Confined N S C (call.perform scope) := by
  cases call with
  | method => exact .map (.bind newMemberConfined fun _ => placeFunctionConfined inside)
  | methodTemplate =>
    refine .map (.bind newMemberConfined fun _ => .bind templateDeclConfined fun _ => ?_)
    exact .bind (.discard (pushDeclConfined inside)) fun _ => .pure
  | constructor | destructor =>
    exact .map (.bind classNameOfConfined fun _ => .bind newMemberConfined fun _ => placeFunctionConfined inside)

theorem Call.confined (call : Call) : Confined N call.changed call.remarked call.perform := by
  cases call with
  | type call => exact call.confined (List.Subset.refl _)
  | decl call => exact call.confined (List.Subset.refl _)
  | expr call => exact call.confined (List.Subset.refl _)
  | grow call => exact call.confined (List.Subset.refl _)
  | newTopLevel => exact .map (.bind (.alloc trivial) fun _ => .pure)
  | looseScope => exact .map (.alloc trivial)
  | commentBefore r | commentAfter r =>
    exact .silently (.bind .own fun _ => fun _ _ => .setComments (List.mem_singleton_self r) _)
  | putAny p call => exact call.confined (List.mem_singleton_self _)
  | putTag p _ call => exact call.confined (List.mem_singleton_self _)
  | putStmt p _ call => exact call.confined (List.mem_singleton_self _)
  | putDirective p branch _ call => exact call.confined branch (List.mem_singleton_self _)
  | putTopLevel p _ call => exact call.confined (List.mem_cons_self ..) (List.subset_cons_self ..)
  | putMember p _ call => exact call.confined (List.mem_singleton_self _)

end Calls

theorem Ends.frame {call : Call} {a b : Arena} {result : Except Misuse Answer} (ends : Ends call.perform a result b) :
    Frame call.changed call.remarked a b := by
  cases result with
  | ok answer => exact call.confined.succeeded ends
  | error cause => exact call.confined.refused ends

end CSource
