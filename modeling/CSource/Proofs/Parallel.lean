import CSource.Proofs.Independence

/-!
Factories look at no node. What a factory stores is built of the handles that it is given and of those that it made
before, so in another arena, with other handles, it makes a copy or is refused for the same cause.
-/

namespace CSource

open Build

/-- The arenas differ at most in their tables. -/
structure Arena.Resembles (a b : Arena) : Prop where
  number : b.number = a.number
  dialect : b.dialect = a.dialect
  nodes : ∀ c, b.nodes c = a.nodes c
  comments : b.comments = a.comments

theorem Arena.Resembles.node {a b : Arena} (same : a.Resembles b) {c : Category} (h : Handle c) :
    b.node h = a.node h := by
  unfold Arena.node Arena.owns
  rw [same.number, same.nodes]

structure Parallel (f g : Renaming) (a b : Arena) : Prop extends Linked f g a b where
  number : b.number = a.number
  keeps : ∀ {c : Category} (h : Handle c), (f h).arena = h.arena
  next : ∀ (c : Category) (k : Nat), f (⟨a.number, (a.nodes c).size + k⟩ : Handle c) = ⟨b.number, (b.nodes c).size + k⟩

namespace Parallel

variable {f g : Renaming} {a b a' b' : Arena} {c : Category}

theorem nextHandle (parallel : Parallel f g a b) : f (a.nextHandle c) = b.nextHandle c := parallel.next c 0

theorem resembles (parallel : Parallel f g a b) (left : a.Resembles a') (right : b.Resembles b') :
    Parallel f g a' b' where
  back := parallel.back
  dialect := by rw [left.dialect, right.dialect, parallel.dialect]
  node h := by rw [left.node, right.node, parallel.node]
  comments r := by
    unfold Arena.commentsOf
    rw [left.comments, right.comments]
    exact parallel.comments r
  number := by rw [left.number, right.number, parallel.number]
  keeps := parallel.keeps
  next c k := by
    rw [left.number, left.nodes, right.number, right.nodes]
    exact parallel.next c k

theorem push (parallel : Parallel f g a b) (n : Node c) : Parallel f g (a.push c n) (b.push c (Node.rename f c n)) where
  back := parallel.back
  dialect := by simp [parallel.dialect]
  node {d} h := by
    by_cases new : h.ref = (a.nextHandle c).ref
    · cases congrArg NodeRef.category new
      cases refInjective new
      rw [parallel.nextHandle, Arena.nodePushed, Arena.nodePushed]
      rfl
    · have other : (f h).ref ≠ (b.nextHandle c).ref := by
        intro hit
        rw [← parallel.nextHandle] at hit
        have home := congrArg (NodeRef.rename g) hit
        rw [refRename, refRename, parallel.returns, parallel.returns] at home
        exact new home
      rw [Arena.nodePushOther new, Arena.nodePushOther other, parallel.node]
  comments r := by simpa [Arena.commentsOf] using parallel.comments r
  number := by simp [parallel.number]
  keeps := parallel.keeps
  next d k := by
    by_cases same : c = d
    · subst same
      simpa [Nat.add_assoc, Nat.add_comm 1 k] using parallel.next c (k + 1)
    · simpa [Arena.nodesPushOther _ same] using parallel.next d k

end Parallel

/-- The actions give linked results on linked arenas, or are refused for the same cause. -/
def Alike (f g : Renaming) {α : Type} (carry : α → α) (m m' : Build α) : Prop :=
  ∀ ⦃a b : Arena⦄, Parallel f g a b →
    match m.run a, m'.run b with
    | .ok x a', .ok y b' => y = carry x ∧ Parallel f g a' b'
    | .error cause _, .error cause' _ => cause' = cause
    | _, _ => False

namespace Alike

variable {f g : Renaming} {α β : Type} {carry : α → α} {bring : β → β} {m m' : Build α} {k k' : α → Build β}

theorem pure {x y : α} (same : y = carry x) : Alike f g carry (Pure.pure x) (Pure.pure y) :=
  fun _ _ parallel => ⟨same, parallel⟩

theorem outcomes {a b : Arena} (alike : Alike f g carry m m') (parallel : Parallel f g a b) :
    (∃ x a' b', m.run a = .ok x a' ∧ m'.run b = .ok (carry x) b' ∧ Parallel f g a' b') ∨
      ∃ cause a' b', m.run a = .error cause a' ∧ m'.run b = .error cause b' := by
  have ends := alike parallel
  cases left : m.run a with
  | ok x a' =>
    cases right : m'.run b with
    | ok y b' =>
      rw [left, right] at ends
      obtain ⟨rfl, after⟩ := ends
      exact .inl ⟨x, a', b', rfl, rfl, after⟩
    | error cause b' =>
      rw [left, right] at ends
      exact ends.elim
  | error cause a' =>
    cases right : m'.run b with
    | ok y b' =>
      rw [left, right] at ends
      exact ends.elim
    | error cause' b' =>
      rw [left, right] at ends
      cases ends
      exact .inr ⟨cause, a', b', rfl, rfl⟩

theorem bind (first : Alike f g carry m m') (rest : ∀ x, Alike f g bring (k x) (k' (carry x))) :
    Alike f g bring (m >>= k) (m' >>= k') := by
  intro a b parallel
  rw [EStateM.run_bind, EStateM.run_bind]
  rcases first.outcomes parallel with ⟨x, a', b', left, right, after⟩ | ⟨cause, a', b', left, right⟩
  · rw [left, right]
    exact rest x after
  · rw [left, right]

theorem map {h h' : α → β} (first : Alike f g carry m m') (same : ∀ x, h' (carry x) = bring (h x)) :
    Alike f g bring (h <$> m) (h' <$> m') := by
  rw [map_eq_pure_bind, map_eq_pure_bind]
  exact first.bind fun x => pure (same x)

theorem own {c : Category} (h : Handle c) : Alike f g id (Build.own h) (Build.own (f h)) := by
  intro a b parallel
  have same : b.owns (f h) = a.owns h := by
    unfold Arena.owns
    rw [parallel.keeps, parallel.number]
  rw [runOwns, runOwns, same]
  cases a.owns h with
  | true => exact ⟨rfl, parallel⟩
  | false => rfl

theorem require (feature : Feature) : Alike f g id (Build.require feature) (Build.require feature) := by
  intro a b parallel
  rw [runRequire, runRequire, parallel.dialect]
  by_cases same : a.dialect = feature.dialect
  · rw [if_pos same, if_pos same]
    exact ⟨rfl, parallel⟩
  · rw [if_neg same, if_neg same]

theorem requireIf (condition : Bool) (feature : Feature) :
    Alike f g id (Build.requireIf condition feature) (Build.requireIf condition feature) := by
  cases condition with
  | true => exact require feature
  | false => exact pure rfl

theorem forM {act : α → Build PUnit} (each : ∀ x, Alike f g id (act x) (act (carry x))) (xs : List α) :
    Alike f g id (xs.forM act) ((xs.map carry).forM act) := by
  induction xs with
  | nil => exact pure rfl
  | cons x xs ih => exact (each x).bind fun _ => ih

theorem mapM {act act' : α → Build β} (each : ∀ x, Alike f g bring (act x) (act' (carry x))) (xs : List α) :
    Alike f g (List.map bring) (xs.mapM act) ((xs.map carry).mapM act') := by
  induction xs with
  | nil => exact pure rfl
  | cons x xs ih =>
    rw [List.map_cons, List.mapM_cons, List.mapM_cons]
    exact (each x).bind fun y => ih.bind fun ys => pure rfl

theorem ownEach {c : Category} (hs : List (Handle c)) :
    Alike f g id (Build.ownEach hs) (Build.ownEach (hs.map (f ·))) :=
  forM own hs

theorem ownOption {c : Category} (h : Option (Handle c)) :
    Alike f g id (Build.ownOption h) (Build.ownOption (h.map (f ·))) := by
  cases h with
  | none => exact pure rfl
  | some h => exact own h

theorem ownArgs (args : List TemplateArg) :
    Alike f g id (Build.ownArgs args) (Build.ownArgs (args.map (·.rename f))) := by
  refine forM (fun arg => ?_) args
  cases arg with
  | type ty => exact own ty
  | expr e => exact own e

theorem alloc {c : Category} (n : Node c) : Alike f g (f ·) (Build.alloc c n) (Build.alloc c (Node.rename f c n)) :=
  fun _ _ parallel => ⟨parallel.nextHandle.symm, parallel.push n⟩

end Alike

section Builders

variable {f g : Renaming}

def Typed.rename (f : Renaming) {r : Role} (t : Typed r) : Typed r := ⟨f t.handle⟩

def ClassRef.rename (f : Renaming) (c : ClassRef) : ClassRef := ⟨f c.ty, f c.decl⟩

def EnumRef.rename (f : Renaming) (e : EnumRef) : EnumRef := ⟨f e.ty, f e.decl⟩

def Operand.rename (f : Renaming) : Operand → Operand
  | literal l => .literal l
  | ident name => .ident name
  | qualName name => .qualName name
  | expr e => .expr (f e)
  | var decl => .var (f decl)

theorem functionTypeAlike (ret : TypeRef) (params : List TypeRef) (variadic : Bool) :
    Alike f g (f ·) (functionType ret params variadic) (functionType (f ret) (params.map (f ·)) variadic) :=
  (Alike.own ret).bind fun _ => (Alike.ownEach params).bind fun _ => .alloc _

theorem instantiationTypeAlike (template : DeclRef) (args : List TemplateArg) :
    Alike f g (f ·) (instantiationType template args) (instantiationType (f template) (args.map (·.rename f))) :=
  (Alike.require _).bind fun _ => (Alike.own template).bind fun _ => (Alike.ownArgs args).bind fun _ => .alloc _

theorem packTypeAlike (element : TypeRef) : Alike f g (f ·) (packType element) (packType (f element)) :=
  (Alike.require _).bind fun _ => (Alike.own element).bind fun _ => .alloc _

theorem typeParameterAlike (keyword : ParameterKeyword) :
    Alike f g (f ·) (typeParameter keyword) (typeParameter keyword) :=
  (Alike.require _).bind fun _ => .alloc _

theorem newAggregateAlike (kind : AggregateKind) (name : QualName) :
    Alike f g (·.rename f) (newAggregate kind name) (newAggregate kind name) :=
  (Alike.requireIf _ _).bind fun _ => (Alike.alloc (c := .type) _).bind fun _ =>
    (Alike.alloc (c := .decl) _).bind fun _ => .pure rfl

theorem newEnumAlike (name : QualName) (key : Option EnumKey) :
    Alike f g (·.rename f) (newEnum name key) (newEnum name key) :=
  (Alike.requireIf _ _).bind fun _ => (Alike.alloc (c := .type) _).bind fun _ =>
    (Alike.alloc (c := .decl) _).bind fun _ => .pure rfl

theorem newVarAlike (name : QualName) (ty : TypeRef) (init : Option ExprRef) (shape : VarShape) :
    Alike f g (f ·) (newVar name ty init shape) (newVar name (f ty) (init.map (f ·)) (shape.rename f)) :=
  (Alike.own ty).bind fun _ => (Alike.ownOption init).bind fun _ => .alloc _

theorem arrayVarDeclAlike (name : QualName) (ty : TypeRef) (sizes : List ExprRef) (init : Option ExprRef) :
    Alike f g (f ·) (arrayVarDecl name ty sizes init)
      (arrayVarDecl name (f ty) (sizes.map (f ·)) (init.map (f ·))) :=
  (Alike.ownEach sizes).bind fun _ => newVarAlike name ty init (.array sizes)

theorem constructedVarDeclAlike (name : QualName) (ty : TypeRef) (args : List ExprRef) (braced : Bool) :
    Alike f g (f ·) (constructedVarDecl name ty args braced)
      (constructedVarDecl name (f ty) (args.map (f ·)) braced) :=
  (Alike.require _).bind fun _ => (Alike.ownEach args).bind fun _ => newVarAlike name ty none (.construct args braced)

theorem functionDeclAlike (name : QualName) (ret : TypeRef) (params : List DeclRef) (variadic : Bool) :
    Alike f g (·.rename f) (functionDecl name ret params variadic)
      (functionDecl name (f ret) (params.map (f ·)) variadic) := by
  have body : Alike f g (Option.map (f.apply .scope)) (pure none) (pure none) := .pure rfl
  exact (Alike.ownOption (some ret)).bind fun _ => (Alike.ownEach params).bind fun _ => body.bind fun _ =>
    (Alike.alloc (c := .decl) _).bind fun _ => .pure rfl

theorem templateDeclAlike (params : List DeclRef) (inner : DeclRef) :
    Alike f g (f ·) (templateDecl params inner) (templateDecl (params.map (f ·)) (f inner)) :=
  (Alike.require _).bind fun _ => (Alike.ownEach params).bind fun _ => (Alike.own inner).bind fun _ => .alloc _

theorem rawTemplateDeclAlike (name : QualName) :
    Alike f g (f ·) (rawTemplateDecl name) (rawTemplateDecl name) :=
  (Alike.require _).bind fun _ => (Alike.alloc (c := .decl) _).bind fun _ => .alloc _

theorem rawInstantiationTypeAlike (name : QualName) (args : List TemplateArg) :
    Alike f g (f ·) (rawInstantiationType name args) (rawInstantiationType name (args.map (·.rename f))) :=
  (rawTemplateDeclAlike name).bind fun template => instantiationTypeAlike template args

theorem rawExprAlike (text : String) : Alike f g (f ·) (rawExpr text) (rawExpr text) := .alloc _

theorem literalExprAlike (l : Literal) : Alike f g (f ·) (literalExpr l) (literalExpr l) := by
  intro a b parallel
  have made := rawExprAlike (l.text a.dialect) parallel
  unfold literalExpr
  rw [EStateM.run_bind, EStateM.run_bind, EStateM.run_get, EStateM.run_get]
  dsimp only
  rw [parallel.dialect]
  exact made

theorem varExprAlike (d : DeclRef) : Alike f g (f ·) (varExpr d) (varExpr (f d)) :=
  (Alike.own d).bind fun _ => .alloc _

theorem typeExprAlike (ty : TypeRef) : Alike f g (f ·) (typeExpr ty) (typeExpr (f ty)) :=
  (Alike.own ty).bind fun _ => .alloc _

theorem subscriptExprAlike (base index : ExprRef) :
    Alike f g (f ·) (subscriptExpr base index) (subscriptExpr (f base) (f index)) :=
  (Alike.own base).bind fun _ => (Alike.own index).bind fun _ => .alloc _

theorem callExprAlike (callee : ExprRef) (args : List ExprRef) :
    Alike f g (f ·) (callExpr callee args) (callExpr (f callee) (args.map (f ·))) :=
  (Alike.own callee).bind fun _ => (Alike.ownEach args).bind fun _ => .alloc _

theorem unaryExprAlike (op : String) (operand : ExprRef) :
    Alike f g (f ·) (unaryExpr op operand) (unaryExpr op (f operand)) :=
  (Alike.own operand).bind fun _ => .alloc _

theorem postfixExprAlike (operand : ExprRef) (op : String) :
    Alike f g (f ·) (postfixExpr operand op) (postfixExpr (f operand) op) :=
  (Alike.own operand).bind fun _ => .alloc _

theorem binaryExprAlike (lhs : ExprRef) (op : String) (rhs : ExprRef) :
    Alike f g (f ·) (binaryExpr lhs op rhs) (binaryExpr (f lhs) op (f rhs)) :=
  (Alike.own lhs).bind fun _ => (Alike.own rhs).bind fun _ => .alloc _

theorem parenExprAlike (inner : ExprRef) : Alike f g (f ·) (parenExpr inner) (parenExpr (f inner)) :=
  (Alike.own inner).bind fun _ => .alloc _

theorem designatedExprAlike (fields : List Designator) :
    Alike f g (f ·) (designatedExpr fields) (designatedExpr (fields.map (·.rename f))) := by
  have values : (fields.map (·.rename f)).map (·.value) = (fields.map (·.value)).map (f ·) := by
    simp [Designator.rename, Function.comp_def]
  unfold designatedExpr
  rw [values]
  exact (Alike.ownEach _).bind fun _ => .alloc _

theorem genericExprAlike (control : ExprRef) : Alike f g (·.rename f) (genericExpr control) (genericExpr (f control)) :=
  (Alike.require _).bind fun _ => (Alike.own control).bind fun _ => (Alike.alloc (c := .expr) _).bind fun _ => .pure rfl

theorem lambdaExprAlike (captures : List Capture) (params : List DeclRef) (variadic : Bool) (ret : Option TypeRef) :
    Alike f g (·.rename f) (lambdaExpr captures params variadic ret)
      (lambdaExpr captures (params.map (f ·)) variadic (ret.map (f ·))) :=
  (Alike.require _).bind fun _ => (Alike.ownEach params).bind fun _ => (Alike.ownOption ret).bind fun _ =>
    (Alike.alloc (c := .scope) _).bind fun _ => (Alike.alloc (c := .expr) _).bind fun _ => .pure rfl

theorem newExprAlike (data : NewExpr) : Alike f g (f ·) (newExpr data) (newExpr (data.rename f)) :=
  (Alike.require _).bind fun _ => (Alike.own data.ty).bind fun _ => (Alike.ownEach data.args).bind fun _ =>
    (Alike.ownOption data.arraySize).bind fun _ => (Alike.ownOption data.placement).bind fun _ => .alloc _

theorem instantiationExprAlike (template : DeclRef) (args : List TemplateArg) :
    Alike f g (f ·) (instantiationExpr template args) (instantiationExpr (f template) (args.map (·.rename f))) :=
  (Alike.require _).bind fun _ => (Alike.own template).bind fun _ => (Alike.ownArgs args).bind fun _ => .alloc _

theorem foldExprAlike (op : String) (pack : ExprRef) (kind : Fold) :
    Alike f g (f ·) (foldExpr op pack kind) (foldExpr op (f pack) (kind.rename f)) := by
  have start : Alike f g id (ownFold kind) (ownFold (kind.rename f)) := by
    cases kind with
    | unaryLeft | unaryRight => exact .pure rfl
    | binaryLeft e | binaryRight e => exact .own e
  exact (Alike.require _).bind fun _ => (Alike.own pack).bind fun _ => start.bind fun _ => .alloc _

theorem operandAlike (x : Operand) : Alike f g (f ·) (operand x) (operand (x.rename f)) := by
  cases x with
  | literal l => exact literalExprAlike l
  | ident name => exact rawExprAlike name
  | qualName name => exact (Alike.require _).bind fun _ => .alloc _
  | expr e => exact parenExprAlike e
  | var d => exact varExprAlike d

theorem subscriptsAlike (base : ExprRef) (indices : List Operand) :
    Alike f g (f ·) (subscripts base indices) (subscripts (f base) (indices.map (·.rename f))) := by
  induction indices generalizing base with
  | nil => exact .pure rfl
  | cons index rest ih =>
    exact (operandAlike index).bind fun i => (subscriptExprAlike base i).bind fun next => ih next

end Builders

end CSource
