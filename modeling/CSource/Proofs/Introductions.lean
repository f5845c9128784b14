import CSource.Proofs.Closed
import CSource.Proofs.Course
import CSource.Proofs.Touched

/-!
What declarations introduce. The declaration of a tag or of another name for a type refers to the type that carries
the name, and no call can make one for a type of another shape: the type is made with the declaration, or it comes
with the tag that a client was given. This holds also where scopes are used as what they are not.
-/

namespace CSource

open Build

/-- Every tag stays what it was, and every new declaration of one is true. -/
structure Arena.Honors (a b : Arena) : Prop where
  tagged : a.Tagged → b.Tagged
  tags : ∀ t : Tag, a.Has t.slot → b.Has t.slot

namespace Arena

variable {a b c : Arena}

theorem hasTag {t : Tag} : a.Has t.slot ↔
    t.ty.arena = a.number ∧ ∃ n, (a.nodes .type)[t.ty.index]? = some n ∧ t.shape.acceptsType n = true := by
  constructor
  · intro ⟨own, n, found, accepted, _⟩
    exact ⟨own, n, found, accepted⟩
  · intro ⟨own, n, found, accepted⟩
    exact ⟨own, n, found, accepted, nofun⟩

theorem Honors.refl (a : Arena) : a.Honors a := ⟨id, fun _ => id⟩

theorem Honors.trans (first : a.Honors b) (second : b.Honors c) : a.Honors c :=
  ⟨fun tagged => second.tagged (first.tagged tagged), fun t has => second.tags t (first.tags t has)⟩

theorem hasTagPush {d : Category} (n : Node d) {t : Tag} (has : a.Has t.slot) : (a.push d n).Has t.slot := by
  obtain ⟨own, m, found, accepted⟩ := hasTag.mp has
  exact hasTag.mpr ⟨by simpa using own, m, pushKeeps n found, accepted⟩

theorem taggedPush {d : Category} {n : Node d} (tagged : a.Tagged) (new : ∀ t, Node.tag? d n = some t → a.Has t.slot) :
    (a.push d n).Tagged :=
  pushForall (P := fun e _ (m : Node e) => ∀ t, Node.tag? e m = some t → (a.push d n).Has t.slot)
    (fun e i m found t introduced => hasTagPush n (tagged e i m found t introduced))
    fun t introduced => hasTagPush n (new t introduced)

theorem Honors.push {d : Category} {n : Node d} (none : Node.tag? d n = none) : a.Honors (a.push d n) where
  tagged tagged := taggedPush tagged fun t introduced => by rw [none] at introduced; contradiction
  tags _ := hasTagPush n

theorem Honors.of (nodes : ∀ d, b.nodes d = a.nodes d) (number : b.number = a.number) : a.Honors b := by
  have same (t : Tag) (has : a.Has t.slot) : b.Has t.slot := by
    rw [hasTag] at has ⊢
    rw [number, nodes]
    exact has
  refine ⟨fun tagged d i n found t introduced => ?_, same⟩
  rw [nodes] at found
  exact same t (tagged d i n found t introduced)

theorem Honors.extend (t : Table) (key : t.Key) : a.Honors (t.extend key a) :=
  (push (d := .type) rfl).trans (of (t.nodesExtend key a) rfl)

theorem Honors.setComments (r : NodeRef) (f : Comments → Comments) : a.Honors (a.setComments r f) :=
  of (a.nodesSetComments r f) rfl

theorem Honors.replace {d : Category} (h : Handle d) {n : Node d} (none : Node.tag? d n = none)
    (tags : ∀ t : Tag, a.Has t.slot → (a.replace h n).Has t.slot) : a.Honors (a.replace h n) where
  tagged tagged :=
    replaceForall (P := fun e _ (m : Node e) => ∀ t, Node.tag? e m = some t → (a.replace h n).Has t.slot)
      (fun e i m found t introduced => tags t (tagged e i m found t introduced))
      fun t introduced => by rw [none] at introduced; contradiction
  tags := tags

theorem Honors.replaceOther {d : Category} (h : Handle d) {n : Node d} (other : d ≠ .type)
    (none : Node.tag? d n = none) : a.Honors (a.replace h n) := by
  refine replace h none fun t has => ?_
  rw [hasTag] at has ⊢
  rw [numberReplace, nodesReplaceOther a other]
  exact has

theorem Honors.replaceType {h : TypeRef} {old new : TypeNode} (found : a.node h = .ok old)
    (same : ∀ s : Shape, s.acceptsType new = s.acceptsType old) : a.Honors (a.replace h (c := .type) new) := by
  refine replace h rfl fun t has => ?_
  obtain ⟨own, n, there, accepted⟩ := hasTag.mp has
  rw [hasTag]
  refine ⟨by simpa using own, ?_⟩
  rcases @replaceKeeps a .type .type h old new _ _ found there with kept | ⟨_, _, here, now⟩
  · exact ⟨n, kept, accepted⟩
  · exact ⟨new, now, by rw [same, ← accepted, here]⟩

end Arena

def Honoring {α : Type} (m : Build α) : Prop := ∀ a : Arena, a.Honors (m.after a)

section Rules

variable {α β : Type} {m : Build α} {f : α → Build β}

theorem afterBind (a : Arena) :
    ((m >>= f).after a = m.after a ∧ ∃ cause, m.run a = .error cause (m.after a)) ∨
      ∃ x, m.run a = .ok x (m.after a) ∧ (m >>= f).run a = (f x).run (m.after a) ∧
        (m >>= f).after a = (f x).after (m.after a) := by
  unfold after
  rw [EStateM.run_bind]
  cases ran : m.run a with
  | error cause b => exact .inl ⟨rfl, cause, rfl⟩
  | ok x b => exact .inr ⟨x, rfl, rfl, rfl⟩

namespace Honoring

theorem pure {x : α} : Honoring (Pure.pure x) := fun a => .refl a

theorem throw {cause : Misuse} : Honoring (throw cause : Build α) := fun a => .refl a

theorem throwBind {cause : Misuse} : Honoring ((MonadExcept.throw cause : Build α) >>= f) := fun a => .refl a

theorem bind (first : Honoring m) (rest : ∀ x, Honoring (f x)) : Honoring (m >>= f) := by
  intro a
  rcases afterBind (m := m) (f := f) a with ⟨same, _⟩ | ⟨x, _, _, same⟩
  · exact same ▸ first a
  · exact same ▸ (first a).trans (rest x _)

theorem map {g : α → β} (first : Honoring m) : Honoring (m >>= fun x => Pure.pure (g x)) := first.bind fun _ => pure

theorem mapped {g : α → β} (first : Honoring m) : Honoring (g <$> m) := by
  rw [map_eq_pure_bind]
  exact first.map

theorem silently {act : Build Unit} (first : Honoring act) : Honoring (silently act) := first.map

theorem discard (first : Honoring m) : Honoring (Functor.discard m) := by
  rw [Functor.discard, map_const]
  exact first.mapped

theorem vets {act : Build Unit} (vets : Vets act) : Honoring act := by
  intro a
  unfold after
  rcases vets a with ran | ⟨cause, ran, _⟩
  all_goals
    rw [ran]
    exact .refl a

theorem vet {act : Build Unit} {g : Unit → Build β} (passes : Vets act) (rest : Honoring (g ())) :
    Honoring (act >>= g) :=
  (vets passes).bind fun _ => rest

theorem readFound {g : Arena → Except Misuse α} (rest : ∀ a x, g a = .ok x → a.Honors ((f x).after a)) :
    Honoring (read g >>= f) := by
  intro a
  unfold after
  rw [EStateM.run_bind, runRead]
  cases found : g a with
  | error cause => exact .refl a
  | ok x => exact rest a x found

theorem read {g : Arena → Except Misuse α} (rest : ∀ x, Honoring (f x)) : Honoring (read g >>= f) :=
  readFound fun a x _ => rest x a

theorem alloc {c : Category} {n : Node c} (none : Node.tag? c n = none) : Honoring (alloc c n) := fun _ => .push none

theorem newScope {kind : ScopeKind} : Honoring (newScope kind) := alloc rfl

theorem update {c : Category} {h : Handle c} {n : Node c} (other : c ≠ .type) (none : Node.tag? c n = none) :
    Honoring (update h n) :=
  fun _ => .replaceOther h other none

theorem request (t : Table) {key : t.Key} : Honoring (t.request key) := by
  intro a
  unfold after
  rw [Table.runRequest]
  cases (t.entries a).lookup key with
  | some ty => exact .refl a
  | none => exact .extend t key

end Honoring

end Rules

section Builders

variable {scope : ScopeRef}

namespace Honoring

theorem modifyAggregate {ty : TypeRef} {f : Aggregate → Aggregate} : Honoring (modifyAggregate ty f) := by
  refine .readFound fun a data found => ?_
  exact .replaceType (aggregateAtIff.mp found) fun s => by cases s <;> rfl

theorem modifyEnum {ty : TypeRef} {f : Enumeration → Enumeration} : Honoring (modifyEnum ty f) := by
  refine .readFound fun a n found => ?_
  cases n <;> first
    | exact .refl a
    | exact .replaceType found fun s => by cases s <;> rfl

theorem newVar {name : QualName} {ty : TypeRef} {init : Option ExprRef} {shape : VarShape} :
    Honoring (newVar name ty init shape) :=
  .vet (.own _) (.vet (.ownOption _) (.alloc rfl))

theorem newFunction {name : QualName} {ret : Option TypeRef} {params : List DeclRef} {variadic : Bool}
    {lifecycle : Lifecycle} {kind : FuncKind} {parent : Option TypeRef} :
    Honoring (newFunction name ret params variadic lifecycle kind parent) := by
  rw [newFunctionEq]
  refine .vet (.ownOption _) (.vet (.ownEach _) (.bind ?_ fun _ => .map (.alloc rfl)))
  unfold startingBody
  split
  · exact .mapped .newScope
  · exact .pure

theorem templateDecl {params : List DeclRef} {inner : DeclRef} : Honoring (templateDecl params inner) :=
  .vet (.require _) (.vet (.ownEach _) (.vet (.own _) (.alloc rfl)))

theorem rawTemplateDecl {name : QualName} : Honoring (rawTemplateDecl name) :=
  .vet (.require _) (.bind (.alloc rfl) fun _ => .alloc rfl)

theorem rawExpr {text : String} : Honoring (rawExpr text) := .alloc rfl

theorem varExpr {d : DeclRef} : Honoring (varExpr d) := .vet (.own _) (.alloc rfl)

theorem typeExpr {ty : TypeRef} : Honoring (typeExpr ty) := .vet (.own _) (.alloc rfl)

theorem parenExpr {x : ExprRef} : Honoring (parenExpr x) := .vet (.own _) (.alloc rfl)

theorem callExpr {callee : ExprRef} {args : List ExprRef} : Honoring (callExpr callee args) :=
  .vet (.own _) (.vet (.ownEach _) (.alloc rfl))

theorem unaryExpr {op : String} {x : ExprRef} : Honoring (unaryExpr op x) := .vet (.own _) (.alloc rfl)

theorem postfixExpr {op : String} {x : ExprRef} : Honoring (postfixExpr x op) := .vet (.own _) (.alloc rfl)

theorem binaryExpr {op : String} {lhs rhs : ExprRef} : Honoring (binaryExpr lhs op rhs) :=
  .vet (.own _) (.vet (.own _) (.alloc rfl))

theorem subscriptExpr {base index : ExprRef} : Honoring (subscriptExpr base index) :=
  .vet (.own _) (.vet (.own _) (.alloc rfl))

theorem qualNameExpr {name : QualName} : Honoring (qualNameExpr name) := .vet (.require _) (.alloc rfl)

theorem literalExpr (l : Literal) : Honoring (literalExpr l) :=
  fun a => (rawExpr : Honoring (Build.rawExpr (l.text a.dialect))) a

theorem instantiationExpr {template : DeclRef} {args : List TemplateArg} :
    Honoring (instantiationExpr template args) :=
  .vet (.require _) (.vet (.own _) (.vet (.ownArgs _) (.alloc rfl)))

theorem instantiationType {template : DeclRef} {args : List TemplateArg} :
    Honoring (instantiationType template args) :=
  .vet (.require _) (.vet (.own _) (.vet (.ownArgs _) (.alloc rfl)))

theorem operand (x : Operand) : Honoring (operand x) := by
  cases x with
  | literal l => exact literalExpr l
  | ident => exact rawExpr
  | qualName => exact qualNameExpr
  | expr => exact parenExpr
  | var => exact varExpr

theorem operands (xs : List Operand) : Honoring (xs.mapM Build.operand) := by
  induction xs with
  | nil => exact pure
  | cons x xs ih =>
    rw [List.mapM_cons]
    exact .bind (operand x) fun _ => ih.map

theorem subscripts (base : ExprRef) (indices : List Operand) : Honoring (subscripts base indices) := by
  induction indices generalizing base with
  | nil => exact pure
  | cons index rest ih => exact .bind (operand index) fun _ => .bind subscriptExpr fun x => ih x

theorem pushEntry {e : Entry} : Honoring (pushEntry scope e) :=
  .vet (.ownEntry _) (.read fun _ => .update nofun rfl)

theorem pushDecl {d : DeclRef} : Honoring (pushDecl scope d) := .map pushEntry

theorem pushStmt {s : StmtRef} : Honoring (pushStmt scope s) := .map pushEntry

theorem declStmt {d : DeclRef} : Honoring (declStmt d) := .vet (.own _) (.alloc rfl)

theorem pushDeclStmt {d : DeclRef} : Honoring (pushDeclStmt scope d) := .bind declStmt fun _ => .map pushEntry

theorem placeStmt {n : StmtNode} : Honoring (placeStmt scope n) := .bind (.alloc rfl) fun _ => pushStmt

theorem placeDirective {n : DirectiveNode} : Honoring (placeDirective scope n) :=
  .bind (.alloc rfl) fun _ => .map pushEntry

theorem placeExpr {e : ExprRef} : Honoring (placeExpr scope e) := .vet (.own _) placeStmt

theorem placeFor {init : Option StmtRef} {cond step : Option ExprRef} : Honoring (placeFor scope init cond step) :=
  .vet (.ownOption _) (.vet (.ownOption _) (.vet (.ownOption _) (.bind .newScope fun _ => .map placeStmt)))

theorem placeNamedCall {callee : String} {args : List ExprRef} : Honoring (placeNamedCall scope callee args) :=
  .bind rawExpr fun _ => .bind callExpr fun _ => placeExpr

theorem placeRepeated {piece : String} {count : Nat} : Honoring (placeRepeated scope piece count) := by
  unfold Build.placeRepeated
  split
  · exact .throwBind
  · exact placeDirective

theorem placeFunction {lifecycle : Lifecycle} {f : FunctionRef} : Honoring (placeFunction scope lifecycle f) := by
  unfold Build.placeFunction
  split
  · exact .bind (.alloc rfl) fun _ => .bind (.discard pushDecl) fun _ => pure
  · exact .bind (.discard pushDecl) fun _ => pure

theorem parentOf : Honoring (parentOf scope) := by
  refine .read fun n => ?_
  cases n.kind <;> first | exact throw | exact pure

theorem classNameOf : Honoring (classNameOf scope) := .bind parentOf fun _ => .read fun _ => pure

theorem newMember {name : String} {ret : Option TypeRef} {params : List DeclRef} {variadic : Bool}
    {lifecycle : Lifecycle} {kind : FuncKind} :
    Honoring (newMember scope name ret params variadic lifecycle kind) :=
  .vet (.require _) (.bind parentOf fun _ => newFunction)

theorem modifyIf {s : Typed .ifElse} {f : IfStmt → IfStmt} : Honoring (modifyIf s f) := by
  refine .read fun n => ?_
  cases n <;> first | exact throw | exact .update nofun rfl

theorem readConditional {β : Type} {branch : BranchKind} {c : Typed (.conditional branch)} {f : Conditional → Build β}
    (rest : ∀ data, Honoring (f data)) : Honoring (readConditional c >>= f) := by
  unfold Build.readConditional
  rw [bind_assoc]
  refine .read fun n => ?_
  cases n <;> first | exact throwBind | exact rest _

theorem markDefined {f : FunctionRef} : Honoring (markDefined f) := by
  refine .read fun data => ?_
  dsimp only
  split
  · split
    · exact .throwBind
    · exact .update nofun rfl
  · exact .throwBind

end Honoring

end Builders

def Issued.tags : Issued → List Tag
  | aggregate c => [⟨c.ty, .aggregate⟩]
  | enumeration e => [⟨e.ty, .enumeration⟩]
  | templated _ inner => inner.tags
  | node _ _ | typed _ _ | place _ => []

def tagsOf (is : List Issued) : List Tag := is.flatMap (·.tags)

def Answer.tags (answer : Answer) : List Tag := tagsOf answer.issued

/-- Given true tags, the action makes declarations of true tags only, and the tags of its result are true. -/
def Introduces {α : Type} (given : List Tag) (m : Build α) (made : α → List Tag) : Prop :=
  ∀ a : Arena, (∀ t ∈ given, a.Has t.slot) → a.Honors (m.after a) ∧
    ∀ x b, m.run a = .ok x b → ∀ t ∈ made x, b.Has t.slot

namespace Introduces

variable {α β : Type} {m : Build α} {f : α → Build β} {given : List Tag} {made : β → List Tag}

theorem pure {x : β} (known : ∀ t ∈ made x, t ∈ given) : Introduces given (Pure.pure x) made := by
  intro a has
  refine ⟨.refl a, fun y b ran t mem => ?_⟩
  cases ran
  exact has t (known t mem)

theorem bind {before : α → List Tag} (first : Introduces given m before)
    (rest : ∀ x, Introduces (given ++ before x) (f x) made) : Introduces given (m >>= f) made := by
  intro a has
  obtain ⟨honors, new⟩ := first a has
  rcases afterBind (m := m) (f := f) a with ⟨same, cause, ran⟩ | ⟨x, ran, next, same⟩
  · rw [same]
    refine ⟨honors, fun y b done => ?_⟩
    rw [EStateM.run_bind, ran] at done
    contradiction
  · have known : ∀ t ∈ given ++ before x, (m.after a).Has t.slot := by
      intro t mem
      rcases List.mem_append.mp mem with old | late
      · exact honors.tags t (has t old)
      · exact new x _ ran t late
    obtain ⟨later, last⟩ := rest x _ known
    rw [same, next]
    exact ⟨honors.trans later, last⟩

theorem honoring {m : Build β} (first : Honoring m) : Introduces given m fun _ => [] :=
  fun a _ => ⟨first a, nofun⟩

theorem skip (first : Honoring m) (rest : ∀ x, Introduces given (f x) made) : Introduces given (m >>= f) made := by
  refine .bind (honoring first) fun x => ?_
  rw [List.append_nil]
  exact rest x

theorem vet {act : Build Unit} {g : Unit → Build β} (passes : Vets act) (rest : Introduces given (g ()) made) :
    Introduces given (act >>= g) made :=
  .skip (.vets passes) fun _ => rest

theorem mapped {before : α → List Tag} {g : α → β} (first : Introduces given m before)
    (same : ∀ x, made (g x) = before x) : Introduces given (g <$> m) made := by
  rw [map_eq_pure_bind]
  refine .bind first fun x => .pure fun t mem => ?_
  rw [same] at mem
  exact List.mem_append_right _ mem

theorem answers {g : α → Answer} (first : Honoring m) (none : (fun x => (g x).tags) = fun _ => []) :
    Introduces given (g <$> m) Answer.tags :=
  .mapped (honoring first) (congrFun none)

theorem silently {act : Build Unit} (first : Honoring act) : Introduces given (silently act) Answer.tags :=
  .skip first fun _ => .pure nofun

theorem placed {act : α → Build β} {g : α → β → α} {before : α → List Tag} (first : Introduces given m before)
    (rest : ∀ x, Honoring (act x)) (same : ∀ x y, g x y = x) :
    Introduces given (m >>= fun x => act x >>= fun y => Pure.pure (g x y)) before := by
  refine .bind first fun x => .skip (rest x) fun y => .pure fun t mem => ?_
  rw [same] at mem
  exact List.mem_append_right _ mem

theorem fresh {ty : TypeNode} {declare : TypeRef → DeclNode} {shape : Shape} {g : TypeRef → DeclRef → β}
    {tags : β → List Tag} (accepted : shape.acceptsType ty = true)
    (introduced : ∀ t, (declare t).tag? = some ⟨t, shape⟩) (own : ∀ t d, ∀ u ∈ tags (g t d), u = ⟨t, shape⟩) :
    Introduces given (alloc .type ty >>= fun t => alloc .decl (declare t) >>= fun d => Pure.pure (g t d)) tags := by
  intro a _
  have has : (a.push .type ty).Has (Tag.mk (a.nextHandle .type) shape).slot := Arena.hasPushed accepted nofun
  have new : ∀ t, Node.tag? .decl (declare (a.nextHandle .type)) = some t → (a.push .type ty).Has t.slot := by
    intro t same
    cases (introduced _).symm.trans same
    exact has
  refine ⟨⟨fun tagged => ?_, fun t old => ?_⟩, fun x b ran u mem => ?_⟩
  · exact Arena.taggedPush (Arena.taggedPush tagged nofun) new
  · exact Arena.hasTagPush _ (Arena.hasTagPush _ old)
  · cases ran
    cases own _ _ u mem
    exact Arena.hasTagPush _ has

theorem forward {n : DeclNode} {t : Tag} (introduced : n.tag? = some t) (known : t ∈ given) :
    Introduces given (alloc .decl n) fun _ => [] := by
  intro a has
  refine ⟨⟨fun tagged => Arena.taggedPush tagged fun u same => ?_, fun u => Arena.hasTagPush _⟩, nofun⟩
  cases introduced.symm.trans same
  exact has t known

theorem newAggregate {kind : AggregateKind} {name : QualName} :
    Introduces given (newAggregate kind name) fun c => [⟨c.ty, .aggregate⟩] :=
  .vet (.requireIf _ _) (.fresh rfl (fun _ => rfl) fun _ _ _ => List.mem_singleton.mp)

theorem newEnum {name : QualName} {key : Option EnumKey} :
    Introduces given (newEnum name key) fun e => [⟨e.ty, .enumeration⟩] :=
  .vet (.requireIf _ _) (.fresh rfl (fun _ => rfl) fun _ _ _ => List.mem_singleton.mp)

theorem newSynonym {name : QualName} {aliased : TypeRef} {declare : TypeRef → DeclNode}
    (introduced : ∀ t, (declare t).tag? = some ⟨t, .synonym⟩) :
    Introduces given (newSynonym name aliased declare) fun _ => [] :=
  .vet (.own _) (.fresh rfl introduced nofun)

end Introduces

section Calls

variable {given : List Tag} {scope : ScopeRef}

theorem TypeCall.introduces (call : TypeCall) (known : ∀ t ∈ tagsOf (call.checked ++ call.unchecked), t ∈ given) :
    Introduces given call.perform Answer.tags := by
  cases call with
  | primitive | raw => exact .answers (.request .raw) rfl
  | auto => exact .answers (.vet (.require _) (.request .raw)) rfl
  | parameter => exact .answers (.vet (.require _) (.alloc rfl)) rfl
  | pointer => exact .answers (.vet (.own _) (.request .pointer)) rfl
  | reference => exact .answers (.vet (.require _) (.vet (.own _) (.request .reference))) rfl
  | array => exact .answers (.vet (.own _) (.vet (.ownEach _) (.request .array))) rfl
  | function => exact .answers (.vet (.own _) (.vet (.ownEach _) (.alloc rfl))) rfl
  | named | namedClass | namedEnum => exact .answers (.vet (.own _) (.request .named)) rfl
  | instantiation => exact .answers .instantiationType rfl
  | rawInstantiation => exact .answers (.bind .rawTemplateDecl fun _ => .instantiationType) rfl
  | pack => exact .answers (.vet (.require _) (.vet (.own _) (.alloc rfl))) rfl
  | newAggregate => exact .mapped .newAggregate fun _ => rfl
  | newEnum => exact .mapped .newEnum fun _ => rfl
  | members c =>
    refine .answers (.read fun data => ?_) rfl
    cases data.defaultScope with
    | some scope => exact .pure
    | none => exact .bind .newScope fun _ => .bind .modifyAggregate fun _ => .pure
  | addRegion =>
    exact .answers (.vet (.require _) (.bind .newScope fun _ => .bind .modifyAggregate fun _ => .pure)) rfl
  | addBase => exact .silently (.vet (.require _) (.vet (.own _) .modifyAggregate))
  | setFinal => exact .silently (.vet (.require _) .modifyAggregate)
  | addEnumMember => exact .silently (.vet (.ownOption _) .modifyEnum)
  | setUnderlying => exact .silently (.vet (.own _) .modifyEnum)
  | setEnumKey => exact .silently (.vet (.require _) .modifyEnum)
  | forwardClass c => exact .mapped (.forward rfl (known ⟨c.ty, .aggregate⟩ (List.mem_singleton_self _))) fun _ => rfl
  | forwardEnum e => exact .mapped (.forward rfl (known ⟨e.ty, .enumeration⟩ (List.mem_singleton_self _))) fun _ => rfl

theorem DeclCall.introduces (call : DeclCall) : Introduces given call.perform Answer.tags := by
  cases call with
  | raw => exact .answers (.alloc rfl) rfl
  | var => exact .answers .newVar rfl
  | arrayVar => exact .answers (.vet (.ownEach _) .newVar) rfl
  | constructedVar => exact .answers (.vet (.require _) (.vet (.ownEach _) .newVar)) rfl
  | function => exact .answers .newFunction rfl
  | template => exact .answers .templateDecl rfl
  | rawTemplate => exact .answers .rawTemplateDecl rfl
  | setVarQualifiers =>
    exact .silently (.vet (.requireIf _ _) (.vet (.requireIf _ _) (.read fun _ => .update nofun rfl)))
  | body f =>
    refine .answers (.read fun data => ?_) rfl
    dsimp only
    split
    · exact .throwBind
    split
    · exact .throwBind
    cases data.body with
    | some scope => exact .pure
    | none => exact .bind .newScope fun _ => .bind (.update nofun rfl) fun _ => .pure
  | setQualifiers => exact .silently (.vet (.requireIf _ _) (.read fun _ => .update nofun rfl))
  | setMethodQualifiers f quals =>
    refine .silently (.read fun data => ?_)
    dsimp only
    split
    · split
      · exact .throwBind
      · cases data.method <;> first | exact .throw | exact .update nofun rfl
    · cases data.method <;> first | exact .throw | exact .update nofun rfl
  | addMemberInit f member args =>
    refine .silently (.vet (.ownEach _) (.read fun data => ?_))
    dsimp only
    split
    · exact .update nofun rfl
    · exact .throwBind

theorem ExprCall.introduces (call : ExprCall) : Introduces given call.perform Answer.tags := by
  cases call with
  | raw => exact .answers .rawExpr rfl
  | literal l => exact .answers (.literalExpr l) rfl
  | var => exact .answers .varExpr rfl
  | typeName => exact .answers .typeExpr rfl
  | subscript => exact .answers .subscriptExpr rfl
  | call => exact .answers .callExpr rfl
  | unary | operator => exact .answers .unaryExpr rfl
  | postfixed => exact .answers .postfixExpr rfl
  | binary | compare => exact .answers .binaryExpr rfl
  | ternary => exact .answers (.vet (.own _) (.vet (.own _) (.vet (.own _) (.alloc rfl)))) rfl
  | cast => exact .answers (.vet (.own _) (.vet (.own _) (.alloc rfl))) rfl
  | paren => exact .answers .parenExpr rfl
  | initList | designated => exact .answers (.vet (.ownEach _) (.alloc rfl)) rfl
  | generic => exact .answers (.vet (.require _) (.vet (.own _) (.map (.alloc rfl)))) rfl
  | addAssociation g ty value =>
    refine .silently (.vet (.ownOption _) (.vet (.own _) (.read fun n => ?_)))
    cases n <;> first | exact .throw | exact .update nofun rfl
  | qualName => exact .answers .qualNameExpr rfl
  | lambda =>
    refine .answers (.vet (.require _) (.vet (.ownEach _) (.vet (.ownOption _) ?_))) rfl
    exact .bind .newScope fun _ => .map (.alloc rfl)
  | new =>
    refine .answers (.vet (.require _) (.vet (.own _) (.vet (.ownEach _) ?_))) rfl
    exact .vet (.ownOption _) (.vet (.ownOption _) (.alloc rfl))
  | delete | userLiteral | packExpansion => exact .answers (.vet (.require _) (.vet (.own _) (.alloc rfl))) rfl
  | instantiation => exact .answers .instantiationExpr rfl
  | rawInstantiation => exact .answers (.bind .rawTemplateDecl fun _ => .instantiationExpr) rfl
  | fold => exact .answers (.vet (.require _) (.vet (.own _) (.vet (.ownFold _) (.alloc rfl)))) rfl
  | select => exact .answers (.bind .rawExpr fun _ => .binaryExpr) rfl
  | sizeof | vaArg => exact .answers (.bind .rawExpr fun _ => .bind .typeExpr fun _ => .callExpr) rfl
  | short x => exact .answers (.operand x) rfl
  | shortUnary op x => exact .answers (.bind (.operand x) fun _ => .bind .unaryExpr fun _ => .parenExpr) rfl
  | shortPostfix x op => exact .answers (.bind (.operand x) fun _ => .bind .postfixExpr fun _ => .parenExpr) rfl
  | shortBinary lhs op rhs =>
    refine .answers (.bind (.operand lhs) fun _ => .bind (.operand rhs) fun _ => ?_) rfl
    exact .bind .binaryExpr fun _ => .parenExpr
  | shortCall callee args =>
    refine .answers (.bind (.operand callee) fun _ => .bind (.operands args) fun _ => ?_) rfl
    exact .bind .callExpr fun _ => .parenExpr
  | shortIndex base indices =>
    exact .answers (.bind (.operand base) fun x => .bind (.subscripts x indices) fun _ => .parenExpr) rfl

theorem GrowCall.introduces (call : GrowCall) : Introduces given call.perform Answer.tags := by
  cases call with
  | addElseIf =>
    refine .answers (.vet (.requireIf _ _) (.vet (.ownOption _) (.vet (.own _) ?_))) rfl
    exact .bind .newScope fun _ => .bind .modifyIf fun _ => .pure
  | elseBranch s =>
    refine .answers (.read fun n => ?_) rfl
    cases n with
    | ifElse data =>
      dsimp only
      cases data.otherwise with
      | some scope => exact .pure
      | none => exact .bind .newScope fun _ => .bind .modifyIf fun _ => .pure
    | _ => exact .throw
  | addCase s value fallthrough =>
    refine .answers (.vet (.ownOption _) (.bind .newScope fun _ => .bind (.alloc rfl) fun _ => .read fun n => ?_)) rfl
    cases n <;> first
      | exact .throwBind
      | exact .bind (.update nofun rfl) fun _ => .pure
  | addHandler s decl =>
    refine .answers (.vet (.ownOption _) (.bind .newScope fun _ => .read fun n => ?_)) rfl
    cases n <;> first
      | exact .throwBind
      | exact .bind (.update nofun rfl) fun _ => .pure
  | addElif branch c cond =>
    refine .answers (.vet (.own _) (.readConditional fun data => .bind .newScope fun _ => ?_)) rfl
    exact .bind (.update nofun rfl) fun _ => .pure
  | elseOfConditional branch c =>
    refine .answers (.readConditional fun data => ?_) rfl
    cases data.otherwise with
    | some scope => exact .pure
    | none => exact .bind .newScope fun _ => .bind (.update nofun rfl) fun _ => .pure

theorem AnyCall.introduces (call : AnyCall) : Introduces given (call.perform scope) Answer.tags := by
  have stated {d : DeclRef} {α : Type} {x : α} :
      Honoring (Functor.discard (pushDeclStmt scope d) >>= fun _ => pure x) :=
    .bind (.discard .pushDeclStmt) fun _ => .pure
  cases call with
  | entry => exact .silently .pushEntry
  | decl => exact .answers .pushDecl rfl
  | declStmt => exact .answers .pushDeclStmt rfl
  | stmt | directive => exact .answers (.map .pushEntry) rfl
  | raw => exact .answers (.bind (.alloc rfl) fun _ => .pushDecl) rfl
  | var => exact .answers (.bind .newVar fun _ => .pushDeclStmt) rfl
  | arrayVar => exact .answers (.bind (.vet (.ownEach _) .newVar) fun _ => .pushDeclStmt) rfl
  | constructedVar =>
    exact .answers (.bind (.vet (.require _) (.vet (.ownEach _) .newVar)) fun _ => .pushDeclStmt) rfl
  | typeDef => exact .mapped (.bind (.newSynonym fun _ => rfl) fun _ => .honoring stated) fun _ => rfl
  | usingType =>
    exact .mapped (.vet (.require _) (.bind (.newSynonym fun _ => rfl) fun _ => .honoring stated)) fun _ => rfl
  | varTemplate => exact .answers (.bind .newVar fun _ => .bind .templateDecl fun _ => stated) rfl
  | usingTemplate =>
    refine .mapped (.vet (.require _) (.bind (.newSynonym fun _ => rfl) fun _ => .honoring ?_)) fun _ => rfl
    exact .bind .templateDecl fun _ => stated

theorem TagCall.introduces (call : TagCall) (known : ∀ t ∈ tagsOf (call.checked ++ call.unchecked), t ∈ given) :
    Introduces given (call.perform scope) Answer.tags := by
  cases call with
  | aggregate => exact .mapped (.placed .newAggregate (fun _ => .discard .pushDeclStmt) fun _ _ => rfl) fun _ => rfl
  | enumeration => exact .mapped (.placed .newEnum (fun _ => .discard .pushDeclStmt) fun _ _ => rfl) fun _ => rfl
  | aggregateTemplate kind name templateParams =>
    have kept {c : ClassRef} {template : DeclRef} :
        ∀ t ∈ (Answer.templated template (.aggregate c)).tags, t ∈ given ++ [(⟨c.ty, .aggregate⟩ : Tag)] :=
      fun t => List.mem_append_right given
    refine .mapped
      (.vet (.require _) (.bind .newAggregate fun c => .skip .templateDecl fun template => ?_)) fun _ => rfl
    exact .skip (.discard .pushDeclStmt) fun _ => .pure kept
  | declareAggregate c =>
    have given := known ⟨c.ty, .aggregate⟩ (List.mem_singleton_self _)
    exact .mapped (.bind (.forward rfl given) fun _ => .honoring .pushDeclStmt) fun _ => rfl
  | declareEnum e =>
    have given := known ⟨e.ty, .enumeration⟩ (List.mem_singleton_self _)
    exact .mapped (.bind (.forward rfl given) fun _ => .honoring .pushDeclStmt) fun _ => rfl

theorem StmtCall.introduces (call : StmtCall) : Introduces given (call.perform scope) Answer.tags := by
  have bodied {n : ScopeRef → StmtNode} {α : Type} {g : ScopeRef → StmtRef → α} :
      Honoring (newBody >>= fun body => placeStmt scope (n body) >>= fun s => pure (g body s)) :=
    .bind .newScope fun _ => .map .placeStmt
  cases call with
  | raw | empty | breakLoop | continueLoop | label | goto => exact .answers .placeStmt rfl
  | decl => exact .answers (.bind .declStmt fun _ => .pushStmt) rfl
  | expr => exact .answers .placeExpr rfl
  | ifElse =>
    exact .answers (.vet (.requireIf _ _) (.vet (.requireIf _ _) (.vet (.ownOption _) (.vet (.own _) bodied)))) rfl
  | whileLoop | doWhile => exact .answers (.vet (.own _) bodied) rfl
  | forLoop => exact .answers .placeFor rfl
  | forDecl => exact .answers (.bind .declStmt fun _ => .placeFor) rfl
  | forExpr => exact .answers (.vet (.own _) (.bind (.alloc rfl) fun _ => .placeFor)) rfl
  | forRange => exact .answers (.vet (.require _) (.vet (.own _) (.vet (.own _) bodied))) rfl
  | block => exact .answers (.bind .newScope fun _ => .bind (.discard .placeStmt) fun _ => .pure) rfl
  | returnValue => exact .answers (.vet (.ownOption _) .placeStmt) rfl
  | labeledExpr => exact .answers (.vet (.own _) (.bind (.alloc rfl) fun _ => .placeStmt)) rfl
  | switch => exact .answers (.vet (.requireIf _ _) (.vet (.ownOption _) (.vet (.own _) (.map .placeStmt)))) rfl
  | throwValue => exact .answers (.vet (.require _) (.vet (.ownOption _) .placeStmt)) rfl
  | tryCatch => exact .answers (.vet (.require _) bodied) rfl
  | usingNamespace => exact .answers (.vet (.require _) .placeStmt) rfl
  | assign => exact .answers (.bind .binaryExpr fun _ => .placeExpr) rfl
  | call => exact .answers (.bind .callExpr fun _ => .placeExpr) rfl
  | delete => exact .answers (.bind (.vet (.require _) (.vet (.own _) (.alloc rfl))) fun _ => .placeExpr) rfl
  | vaList => exact .answers (.bind (.request .raw) fun _ => .bind .newVar fun _ => .pushDeclStmt) rfl
  | vaStart | vaCopy | vaEnd => exact .answers .placeNamedCall rfl

theorem DirectiveCall.introduces (call : DirectiveCall) (branch : BranchKind) :
    Introduces given (call.perform scope branch) Answer.tags := by
  cases call with
  | conditional head =>
    exact .answers (.vet (.ownCondition _) (.bind .newScope fun _ => .map .placeDirective)) rfl
  | defineFunction => exact .answers (.bind .newScope fun _ => .map .placeDirective) rfl
  | newlines | spaces | tabs => exact .answers .placeRepeated rfl
  | _ => exact .answers .placeDirective rfl

theorem TopLevelCall.introduces (call : TopLevelCall) : Introduces given (call.perform scope) Answer.tags := by
  cases call with
  | function => exact .answers (.bind .newFunction fun _ => .placeFunction) rfl
  | defineFunction =>
    exact .answers (.vet (.own _) (.bind .markDefined fun _ => .bind (.discard .pushDecl) fun _ => .pure)) rfl
  | functionTemplate =>
    refine .answers (.bind .newFunction fun _ => .bind .templateDecl fun _ => ?_) rfl
    exact .bind (.discard .pushDecl) fun _ => .pure
  | namespaceBlock => exact .answers (.vet (.require _) (.bind .newScope fun _ => .map .placeDirective)) rfl
  | usingNamespace | usingName => exact .answers (.vet (.require _) .placeDirective) rfl

theorem MemberCall.introduces (call : MemberCall) : Introduces given (call.perform scope) Answer.tags := by
  cases call with
  | method => exact .answers (.bind .newMember fun _ => .placeFunction) rfl
  | methodTemplate =>
    refine .answers (.bind .newMember fun _ => .bind .templateDecl fun _ => ?_) rfl
    exact .bind (.discard .pushDecl) fun _ => .pure
  | constructor | destructor =>
    exact .answers (.bind .classNameOf fun _ => .bind .newMember fun _ => .placeFunction) rfl

theorem Call.introduces (call : Call) : Introduces (tagsOf call.handles) call.perform Answer.tags := by
  cases call with
  | type call => exact call.introduces fun _ => id
  | decl call => exact call.introduces
  | expr call => exact call.introduces
  | grow call => exact call.introduces
  | newTopLevel => exact .answers (.map .newScope) rfl
  | looseScope => exact .answers .newScope rfl
  | commentBefore | commentAfter => exact .silently (.vet (.own _) fun _ => .setComments _ _)
  | putAny p call => exact call.introduces
  | putTag p _ call => exact call.introduces fun _ => id
  | putStmt p _ call => exact call.introduces
  | putDirective p branch _ call => exact call.introduces branch
  | putTopLevel p _ call => exact call.introduces
  | putMember p _ call => exact call.introduces

end Calls

section Worlds

variable {p : Policy} {w : World} {i j : Issued} {t : Tag}

theorem Issued.partTags (mem : j ∈ i.parts) (tag : t ∈ j.tags) : t ∈ i.tags := by
  cases i with
  | node => contradiction
  | typed | place =>
    cases List.mem_singleton.mp mem
    contradiction
  | aggregate | enumeration =>
    rcases List.mem_cons.mp mem with same | last
    · cases same
      contradiction
    · cases List.mem_singleton.mp last
      contradiction
  | templated template inner =>
    rcases List.mem_cons.mp mem with same | last
    · cases same
      contradiction
    · cases List.mem_singleton.mp last
      exact tag

theorem Issued.tagSlot (tag : t ∈ i.tags) : t.slot ∈ i.slots := by
  induction i with
  | node | typed | place => contradiction
  | aggregate | enumeration =>
    cases List.mem_singleton.mp tag
    exact List.mem_cons_self
  | templated template inner ih => exact List.mem_cons_of_mem _ (ih tag)

theorem Arena.answerTags {a : Arena} {q : Query} {answer : Answer} (answered : a.answer q = .ok answer) :
    ∀ i ∈ answer.issued, i.tags = [] := by
  have slotTags {ss : List Slot} : ∀ i ∈ ss.map (·.ref.issued), i.tags = [] :=
    List.forall_mem_map.mpr fun _ _ => rfl
  cases q with
  | void | stats | dialect | rawTypeNames | comments =>
    cases answered
    simp [Answer.issued, Answer.type, Issued.tags]
  | node | scopeKind =>
    obtain ⟨_, _, rfl⟩ := Except.mapOk answered
    exact slotTags
  | scopeEntries =>
    obtain ⟨_, _, rfl⟩ := Except.mapOk answered
    refine List.forall_mem_map.mpr fun entry _ => ?_
    cases entry <;> rfl
  | openPlace | lambdaBody | ifBody | caseBody | loopBody | tryBody | conditionalBody | macroScope | namespaceBody =>
    obtain ⟨_, _, rfl⟩ := Except.mapOk answered
    exact List.forall_mem_singleton.mpr rfl
  | codeOfEntries scope =>
    simp only [Arena.answer, bind, Except.bind] at answered
    split at answered
    · contradiction
    · obtain ⟨_, _, rfl⟩ := Except.mapOk answered
      exact List.forall_mem_nil _
  | _ =>
    obtain ⟨_, _, rfl⟩ := Except.mapOk answered
    exact List.forall_mem_nil _

def Session.HasTag (σ : Session) (t : Tag) : Prop := ∃ a, σ.arenas[t.ty.arena]? = some a ∧ a.Has t.slot

/-- Every tag that is declared or held is true. -/
structure World.Tagged (w : World) : Prop where
  arenas : ∀ (n : Nat) (a : Arena), w.session.arenas[n]? = some a → a.Tagged
  held : ∀ i ∈ w.held, ∀ t ∈ i.tags, w.session.HasTag t

theorem World.Tagged.holds (tagged : w.Tagged) (holds : w.Holds p i) (tag : t ∈ i.tags) : w.session.HasTag t := by
  induction holds with
  | issued mem => exact tagged.held _ mem t tag
  | part _ mem ih => exact ih (Issued.partTags mem tag)
  | recast => contradiction

theorem Arena.newTagged (n : Nat) (d : Dialect) : (Arena.new n d).Tagged := by
  intro c i m found t introduced
  cases c with
  | decl => simp [nodes, new] at found
  | _ => contradiction

theorem World.Tagged.newArena (tagged : w.Tagged) (d : Dialect) : (w.grow d).Tagged where
  arenas := Session.newForall (Arena.newTagged _ d) tagged.arenas
  held i mem t tag := by
    obtain ⟨a, found, has⟩ := tagged.held i mem t tag
    have inside := (Array.getElem?_eq_some_iff.mp found).1
    refine ⟨a, ?_, has⟩
    show (w.session.newArena d).2.arenas[t.ty.arena]? = some a
    rw [Session.newArena, Array.getElem?_push, if_neg (Nat.ne_of_lt inside)]
    exact found

theorem World.Tagged.given (tagged : w.Tagged) (closed : p.foreign = false) {n : Nat} {call : Call} {a : Arena}
    (allowed : w.Allows p n call) (here : w.session.arenas[n]? = some a) :
    ∀ t ∈ tagsOf call.handles, a.Has t.slot := by
  intro t mem
  obtain ⟨i, listed, tag⟩ := List.mem_flatMap.mp mem
  obtain ⟨b, found, has⟩ := tagged.holds (allowed.held i listed) tag
  have own : t.slot.ref.arena = n := allowed.own closed _ (List.mem_flatMap.mpr ⟨i, listed, Issued.tagSlot tag⟩)
  rw [show t.ty.arena = n from own, here] at found
  cases Option.some.inj found
  exact has

theorem World.Tagged.call (tagged : w.Tagged) (sound : w.Sound p) (closed : p.foreign = false) {n : Nat} {call : Call}
    {a b : Arena} {result : Except Misuse Answer} (allowed : w.Allows p n call)
    (here : w.session.arenas[n]? = some a) (ends : Ends call.perform a result b) :
    World.Tagged ⟨⟨w.session.arenas.setIfInBounds n b⟩, w.held ++ issuedBy result⟩ := by
  obtain ⟨honors, made⟩ := call.introduces a (tagged.given closed allowed here)
  have ended : call.perform.after a = b := by
    unfold after
    cases result <;> rw [show call.perform.run a = _ from ends]
  rw [ended] at honors
  have inside := (Array.getElem?_eq_some_iff.mp here).1
  have number : b.number = n := (sound.outcome allowed here ends).changes.number.trans (sound.numbered n a here)
  refine ⟨Session.afterForall (honors.tagged (tagged.arenas n a here)) tagged.arenas, fun i mem t tag => ?_⟩
  rcases List.mem_append.mp mem with old | new
  · obtain ⟨c, found, has⟩ := tagged.held i old t tag
    by_cases same : n = t.ty.arena
    · rw [← same, here] at found
      cases Option.some.inj found
      exact ⟨b, by simp [← same, inside], honors.tags t has⟩
    · exact ⟨c, by rw [Array.getElem?_setIfInBounds_ne same]; exact found, has⟩
  · cases result with
    | error cause => contradiction
    | ok answer =>
      have has := made answer b ends t (List.mem_flatMap.mpr ⟨i, new, tag⟩)
      have same : t.ty.arena = n := has.own.trans number
      exact ⟨b, by simp [same, inside], has⟩

/-- As long as clients use no handle of another arena, every declaration of a tag or of another name for a type refers
to such a type. -/
theorem World.Reachable.tagged (closed : p.foreign = false) (reachable : w.Reachable p) : w.Tagged := by
  induction reachable with
  | refl => exact ⟨by simp [empty, Session.empty], nofun⟩
  | tail before step ih =>
    have sound := Reachable.sound before
    cases step with
    | newArena d => exact ih.newArena d
    | call allowed ran =>
      obtain ⟨a, b, here, rfl, ends⟩ := Session.stepCases ran
      exact ih.call sound closed allowed here ends
    | ask held ran =>
      refine ⟨ih.arenas, fun i mem t tag => ?_⟩
      rcases List.mem_append.mp mem with old | new
      · exact ih.held i old t tag
      · obtain ⟨a, here, answered⟩ := Option.map_eq_some_iff.mp ran
        subst answered
        cases found : a.answer _ with
        | error cause =>
          rw [found] at new
          contradiction
        | ok answer =>
          rw [found] at new
          rw [Arena.answerTags found i new] at tag
          contradiction

end Worlds

end CSource
