import CSource.Proofs.Renaming
import CSource.Proofs.Rendering

/-!
What the writing of a node reads. A node that is written is looked up with its comments; some nodes are looked up
besides, for a name or for a shape, without being written. The text is the same in another arena in which all these
nodes are found again under other handles.
-/

namespace CSource

open Relation Pieces Render

namespace Arena

/-- The nodes that are looked up for the name of a declaration, through at most `depth` templates and halves. -/
def namingWithin (a : Arena) : Nat → DeclRef → List NodeRef
  | 0, _ => []
  | depth + 1, d => d.ref :: match a.node d with
    | .ok (.splitForward inner) | .ok (.template _ inner) => a.namingWithin depth inner
    | .ok (.aggregate ty _) | .ok (.enumeration ty _) | .ok (.typeDef ty) | .ok (.usingType ty) => [ty.ref]
    | _ => []

def naming (a : Arena) (d : DeclRef) : List NodeRef := a.namingWithin (a.decls.size + 1) d

def declaring (a : Arena) (ty : TypeRef) : List NodeRef :=
  ty.ref :: match a.node ty with
    | .ok (.pointer pointee) => [pointee.ref]
    | _ => []

end Arena

def TypeNode.consulted (a : Arena) : TypeNode → List NodeRef
  | named d | instantiation d _ => a.naming d
  | _ => []

def DeclNode.consulted (a : Arena) : DeclNode → List NodeRef
  | var data => a.declaring data.ty
  | function data => if data.lifecycle = .split then data.method.toList.map (·.parent.ref) else []
  | splitForward func => [func.ref]
  | aggregate ty forward | enumeration ty forward => if forward then [ty.ref] else []
  | typeDef ty => ty.ref :: match a.node ty with
    | .ok (.synonym _ aliased) => a.declaring aliased
    | _ => []
  | usingType ty => [ty.ref]
  | raw _ | template _ _ => []

def ExprNode.consulted (a : Arena) : ExprNode → List NodeRef
  | var d | instantiation d _ => a.naming d
  | _ => []

def Node.consulted (a : Arena) : (c : Category) → Node c → List NodeRef
  | .type, n => TypeNode.consulted a n
  | .decl, n => DeclNode.consulted a n
  | .expr, n => ExprNode.consulted a n
  | .stmt, _ | .directive, _ | .scope, _ => []

namespace Arena

/-- The nodes that are looked up to write a node, and are not written there. -/
def consulted (a : Arena) (r : NodeRef) : List NodeRef :=
  match a.node r.handle with
  | .ok n => Node.consulted a r.category n
  | .error _ => []

def Writes (a : Arena) (r k : NodeRef) : Prop := .child k ∈ pieces a r

/-- The text of the one node contains that of the other, with its comments. -/
def Shows (a : Arena) : NodeRef → NodeRef → Prop := ReflTransGen a.Writes

/-- The other node is looked up when the one is written. -/
def Reads (a : Arena) (r k : NodeRef) : Prop := ∃ m, a.Shows r m ∧ (k = m ∨ k ∈ a.consulted m)

end Arena

/-- What the first arena has at a reference, the second has where the renaming leads. -/
def Mirrors (f : Renaming) (a b : Arena) (r : NodeRef) : Prop :=
  ∀ n, a.node r.handle = .ok n → b.node (f r.handle) = .ok (Node.rename f r.category n)

namespace Pieces

def Clean (ps : Pieces) : Prop := ∀ cause, .fault cause ∉ ps

theorem cleanCons {p : Piece} {ps : Pieces} : Clean (p :: ps) ↔ Clean [p] ∧ Clean ps := by
  simp [Clean, forall_and]

theorem cleanAppend {ps qs : Pieces} : Clean (ps ++ qs) ↔ Clean ps ∧ Clean qs := by
  simp [Clean, forall_and]

@[simp] theorem ofExceptPure (ps : Pieces) : Pieces.ofExcept (pure ps) = ps := rfl

theorem cleanLookup {α : Type} {x : Except Misuse α} {g : α → Except Misuse Pieces}
    (clean : Clean (ofExcept (x >>= g))) : ∃ v, x = .ok v := by
  cases x with
  | ok v => exact ⟨v, rfl⟩
  | error cause => exact absurd (List.mem_singleton_self _) (clean cause)

theorem renameLookup {f : Renaming} {α β : Type} {x : Except Misuse α} {y : Except Misuse β}
    {g : α → Except Misuse Pieces} {h : β → Except Misuse Pieces} (clean : Clean (ofExcept (x >>= g)))
    (found : ∀ v, x = .ok v → ∃ u, y = .ok u ∧ (Clean (ofExcept (g v)) → ofExcept (h u) = rename f (ofExcept (g v)))) :
    ofExcept (y >>= h) = rename f (ofExcept (x >>= g)) := by
  obtain ⟨v, rfl⟩ := cleanLookup clean
  obtain ⟨u, there, same⟩ := found v rfl
  rw [there]
  exact same clean

theorem Clean.ofName {name : Except Misuse QualName} (clean : Clean (Pieces.ofName name)) : ∃ n, name = .ok n := by
  cases name with
  | ok n => exact ⟨n, rfl⟩
  | error cause => exact absurd (List.mem_singleton_self _) (clean cause)

end Pieces

section Depth

/-- If what needs one level more leads to something else that does, then no more levels are needed than there are
things to be led to. -/
theorem depthBounded {α β : Type} (run : Nat → α → Except Misuse β) (xs : List α) (nowhere : ∀ x v, run 0 x ≠ .ok v)
    (deeper : ∀ {depth x v}, run depth x = .ok v → run (depth + 1) x = .ok v)
    (listed : ∀ {depth x v}, run depth x = .ok v → x ∈ xs)
    (down : ∀ {depth x v}, run (depth + 2) x = .ok v → (¬∃ v, run (depth + 1) x = .ok v) →
      ∃ y, (∃ v, run (depth + 1) y = .ok v) ∧ ¬∃ v, run depth y = .ok v)
    {depth : Nat} {x : α} {v : β} (done : run depth x = .ok v) : run xs.length x = .ok v := by
  have more {m n : Nat} (le : m ≤ n) {y : α} {u : β} (low : run m y = .ok u) : run n y = .ok u := by
    induction le with
    | refl => exact low
    | step _ ih => exact deeper ih
  -- a chain of things that need one level less each has no repetition
  have chain (depth : Nat) : ∀ x, (∃ v, run (depth + 1) x = .ok v) → (¬∃ v, run depth x = .ok v) →
      ∃ ys : List α, ys.length = depth + 1 ∧ ys.Nodup ∧ ∀ y ∈ ys, ∃ v, run (depth + 1) y = .ok v := by
    induction depth with
    | zero => exact fun x done _ => ⟨[x], rfl, by simp, List.forall_mem_singleton.mpr done⟩
    | succ depth ih =>
      rintro x ⟨v, done⟩ short
      obtain ⟨y, below, lower⟩ := down done short
      obtain ⟨ys, length, nodup, each⟩ := ih y below lower
      refine ⟨x :: ys, by simp [length], List.nodup_cons.mpr ⟨fun mem => short (each x mem), nodup⟩, ?_⟩
      exact List.forall_mem_cons.mpr ⟨⟨v, done⟩, fun y mem => (each y mem).imp fun _ => deeper⟩
  induction depth with
  | zero => exact absurd done (nowhere x v)
  | succ depth ih =>
    by_cases early : ∃ u, run depth x = .ok u
    · obtain ⟨u, early⟩ := early
      cases Except.ok.inj ((deeper early).symm.trans done)
      exact ih early
    · obtain ⟨ys, length, nodup, each⟩ := chain depth x ⟨v, done⟩ early
      have bounded := (nodup.subperm fun y mem => listed (each y mem).choose_spec).length_le
      exact more (by omega) done

end Depth

section Names

variable {f : Renaming} {a b : Arena}

theorem mirroredNode {c : Category} {h : Handle c} {n : Node c} (mirrors : Mirrors f a b h.ref)
    (found : a.node h = .ok n) : b.node (f h) = .ok (Node.rename f c n) :=
  mirrors n found

theorem mirroredTagName {ty : TypeRef} {name : QualName} (mirrors : Mirrors f a b ty.ref)
    (named : a.tagName ty = .ok name) : b.tagName (f ty) = .ok name := by
  unfold Arena.tagName at named ⊢
  cases found : a.node ty with
  | error cause =>
    rw [found] at named
    contradiction
  | ok n =>
    rw [found] at named
    rw [mirroredNode mirrors found]
    cases n <;> exact named

theorem mirroredNameWithin {depth : Nat} {d : DeclRef} {name : QualName}
    (mirrors : ∀ k ∈ a.namingWithin depth d, Mirrors f a b k) (named : a.declNameWithin depth d = .ok name) :
    b.declNameWithin depth (f d) = .ok name := by
  induction depth generalizing d with
  | zero => contradiction
  | succ depth ih =>
    unfold Arena.namingWithin at mirrors
    unfold Arena.declNameWithin at named ⊢
    cases found : a.node d with
    | error cause =>
      rw [found] at named
      contradiction
    | ok n =>
      rw [found] at named mirrors
      have later := (List.forall_mem_cons.mp mirrors).2
      rw [mirroredNode (List.forall_mem_cons.mp mirrors).1 found]
      cases n with
      | raw | var | function => exact named
      | splitForward inner => exact ih later named
      | template params inner => exact ih later named
      | aggregate ty | enumeration ty | typeDef ty | usingType ty =>
        exact mirroredTagName (later _ (List.mem_singleton_self _)) named

theorem nameDeeper {depth : Nat} {d : DeclRef} {name : QualName} (named : a.declNameWithin depth d = .ok name) :
    a.declNameWithin (depth + 1) d = .ok name := by
  induction depth generalizing d with
  | zero => contradiction
  | succ depth ih =>
    unfold Arena.declNameWithin at named ⊢
    cases found : a.node d with
    | error cause =>
      rw [found] at named
      contradiction
    | ok n =>
      rw [found] at named
      cases n <;> first | exact named | exact ih named

theorem namedListed {depth : Nat} {d : DeclRef} {name : QualName} (named : a.declNameWithin depth d = .ok name) :
    d ∈ (List.range a.decls.size).map (⟨a.number, ·⟩) := by
  cases depth with
  | zero => contradiction
  | succ depth =>
    unfold Arena.declNameWithin at named
    cases found : a.node d with
    | error cause =>
      rw [found] at named
      contradiction
    | ok n =>
      obtain ⟨own, there⟩ := Arena.nodeIff.mp found
      have inside := (Array.getElem?_eq_some_iff.mp there).1
      exact List.mem_map.mpr ⟨d.index, List.mem_range.mpr inside, by rw [← own]⟩

theorem nameDown {depth : Nat} {d : DeclRef} {name : QualName} (named : a.declNameWithin (depth + 2) d = .ok name)
    (short : ¬∃ name, a.declNameWithin (depth + 1) d = .ok name) :
    ∃ inner, (∃ name, a.declNameWithin (depth + 1) inner = .ok name) ∧
      ¬∃ name, a.declNameWithin depth inner = .ok name := by
  unfold Arena.declNameWithin at named short
  cases found : a.node d with
  | error cause =>
    rw [found] at named
    contradiction
  | ok n =>
    rw [found] at named short
    cases n with
    | splitForward inner => exact ⟨inner, ⟨name, named⟩, short⟩
    | template params inner => exact ⟨inner, ⟨name, named⟩, short⟩
    | _ => exact absurd ⟨name, named⟩ short

theorem nameBounded {depth : Nat} {d : DeclRef} {name : QualName} (named : a.declNameWithin depth d = .ok name) :
    a.declName d = .ok name := by
  have within := depthBounded a.declNameWithin _ nofun nameDeeper namedListed nameDown named
  rw [List.length_map, List.length_range] at within
  exact nameDeeper within

theorem mirroredName {d : DeclRef} {name : QualName} (mirrors : ∀ k ∈ a.naming d, Mirrors f a b k)
    (named : a.declName d = .ok name) : b.declName (f d) = .ok name :=
  nameBounded (mirroredNameWithin mirrors named)

end Names

section Written

variable {f : Renaming} {a b : Arena}

theorem mirroredOfName {d : DeclRef} (mirrors : ∀ k ∈ a.naming d, Mirrors f a b k)
    (clean : Clean (ofName (a.declName d))) : ofName (b.declName (f d)) = rename f (ofName (a.declName d)) := by
  obtain ⟨name, named⟩ := clean.ofName
  rw [named, mirroredName mirrors named]
  rfl

theorem mirroredTagged {ty : TypeRef} {keyword : String} (mirrors : Mirrors f a b ty.ref)
    (clean : Clean (taggedName keyword (a.tagName ty))) :
    taggedName keyword (b.tagName (f ty)) = rename f (taggedName keyword (a.tagName ty)) := by
  obtain ⟨name, named⟩ := ((cleanCons.mp (cleanCons.mp clean).2).2).ofName
  rw [named, mirroredTagName mirrors named, renameTaggedName]

theorem mirroredInstantiation {d : DeclRef} {args : List TemplateArg} (mirrors : ∀ k ∈ a.naming d, Mirrors f a b k)
    (clean : Clean (instantiation a d args)) :
    instantiation b (f d) (args.map (·.rename f)) = rename f (instantiation a d args) := by
  have named := (cleanAppend.mp (cleanAppend.mp clean).1).1
  simp [instantiation, mirroredOfName mirrors named]

theorem mirroredNamedType {d : DeclRef} (dialect : b.dialect = a.dialect) (mirrors : ∀ k ∈ a.naming d, Mirrors f a b k)
    (clean : Clean (namedType a d)) : namedType b (f d) = rename f (namedType a d) := by
  refine renameLookup clean fun n found => ⟨_, mirroredNode (mirrors _ (List.mem_cons_self ..)) found, ?_⟩
  intro clean
  -- in C++ a tag is referred to by its name alone
  have either {keyword : String} {ty : TypeRef} (reads : ty.ref ∈ a.naming d)
      (clean : Clean (if a.dialect.isCxx then ofName (a.declName d) else taggedName keyword (a.tagName ty))) :
      (if b.dialect.isCxx then ofName (b.declName (f d)) else taggedName keyword (b.tagName (f ty))) =
        rename f (if a.dialect.isCxx then ofName (a.declName d) else taggedName keyword (a.tagName ty)) := by
    rw [dialect]
    cases cxx : a.dialect.isCxx with
    | true => exact mirroredOfName mirrors (by simpa [cxx] using clean)
    | false => exact mirroredTagged (mirrors _ reads) (by simpa [cxx] using clean)
  cases n with
  | aggregate ty forward =>
    have reads : ty.ref ∈ a.naming d := by simp [Arena.naming, Arena.namingWithin, found]
    refine renameLookup clean fun data tag => ⟨data.rename f, ?_, either reads⟩
    exact aggregateAtIff.mpr (mirroredNode (mirrors _ reads) (aggregateAtIff.mp tag))
  | enumeration ty forward =>
    have reads : ty.ref ∈ a.naming d := by simp [Arena.naming, Arena.namingWithin, found]
    exact either reads clean
  | _ => exact mirroredOfName mirrors clean

theorem mirroredDeclarator {ty : TypeRef} {name : String} (mirrors : ∀ k ∈ a.declaring ty, Mirrors f a b k)
    (clean : Clean (declarator a ty name)) : declarator b (f ty) name = rename f (declarator a ty name) := by
  refine renameLookup clean fun n found => ⟨_, mirroredNode (mirrors _ (List.mem_cons_self ..)) found, ?_⟩
  intro clean
  cases n with
  | pointer pointee =>
    have reads : pointee.ref ∈ a.declaring ty := by simp [Arena.declaring, found]
    refine renameLookup clean fun target found => ⟨_, mirroredNode (mirrors _ reads) found, ?_⟩
    intro clean
    cases target <;> simp [Node.rename, TypeNode.rename, plainDeclarator]
  | _ => simp [Node.rename, TypeNode.rename, plainDeclarator]

theorem mirroredTagReference {ty : TypeRef} (mirrors : Mirrors f a b ty.ref) (clean : Clean (tagReference a ty)) :
    tagReference b (f ty) = rename f (tagReference a ty) := by
  refine renameLookup clean fun n found => ⟨_, mirroredNode mirrors found, ?_⟩
  intro clean
  cases n with
  | aggregate data => simp [Node.rename, TypeNode.rename, aggregateHead, Aggregate.rename]
  | enumeration data => simp [Node.rename, TypeNode.rename]
  | _ => exact absurd (List.mem_singleton_self _) (clean _)

theorem mirroredSynonym {ty aliased : TypeRef} {name : QualName} (mirrors : Mirrors f a b ty.ref)
    (found : synonymAt a ty = .ok (name, aliased)) :
    a.node ty = .ok (.synonym name aliased) ∧ synonymAt b (f ty) = .ok (name, f aliased) := by
  unfold synonymAt at found ⊢
  cases there : a.node ty with
  | error cause =>
    rw [there] at found
    contradiction
  | ok n =>
    rw [there] at found
    rw [mirroredNode mirrors there]
    cases n <;> cases found
    exact ⟨rfl, rfl⟩

theorem mirroredType {n : TypeNode} (dialect : b.dialect = a.dialect)
    (mirrors : ∀ k ∈ TypeNode.consulted a n, Mirrors f a b k) (clean : Clean (type a n)) :
    type b (n.rename f) = rename f (type a n) := by
  cases n with
  | named d => exact mirroredNamedType dialect mirrors clean
  | instantiation d args => exact mirroredInstantiation mirrors clean
  | aggregate data => exact (renameAggregate f data).symm
  | enumeration data => exact (renameEnumeration f data).symm
  | _ => simp [type, TypeNode.rename]

theorem mirroredExpr {n : ExprNode} (mirrors : ∀ k ∈ ExprNode.consulted a n, Mirrors f a b k)
    (clean : Clean (expr a n)) : expr b (n.rename f) = rename f (expr a n) := by
  cases n with
  | var d => exact mirroredOfName mirrors clean
  | instantiation d args => exact mirroredInstantiation mirrors clean
  | lambda data => exact (renameLambda f data).symm
  | new data => exact (renameNew f data).symm
  | fold op pack kind => simp [expr, ExprNode.rename, renameFold]
  | generic control assocs => simp [expr, ExprNode.rename, renameAssociation, List.flatMap_map]
  | designated fields => simp [expr, ExprNode.rename, designator, Designator.rename, Function.comp_def]
  | unary op operand leading => cases leading <;> simp [expr, ExprNode.rename]
  | _ => simp [expr, ExprNode.rename]

theorem mirroredSignatureName {data : FuncDecl} {style : SignatureStyle}
    (mirrors : style = .define → ∀ m, data.method = some m → Mirrors f a b m.parent.ref)
    (clean : Clean (signatureName a data style)) :
    signatureName b (data.rename f) style = rename f (signatureName a data style) := by
  cases style with
  | forward | whole => simp [signatureName, FuncDecl.rename]
  | define =>
    cases method : data.method with
    | none => simp [signatureName, FuncDecl.rename, method]
    | some m =>
      simp only [signatureName, method] at clean
      obtain ⟨name, named⟩ := (cleanAppend.mp clean).1.ofName
      have mirrored := mirroredTagName (mirrors rfl m method) named
      simp [signatureName, FuncDecl.rename, method, Membership.rename, named, mirrored, ofName]

theorem mirroredSignature {data : FuncDecl} {style : SignatureStyle}
    (mirrors : style = .define → ∀ m, data.method = some m → Mirrors f a b m.parent.ref)
    (clean : Clean (signature a data style)) :
    signature b (data.rename f) style = rename f (signature a data style) := by
  have named := (cleanAppend.mp (cleanAppend.mp (cleanAppend.mp clean).1).1).2
  have member : (data.rename f).method.isSome = data.method.isSome := Option.isSome_map
  have quals : methodQualifiers (data.rename f) = methodQualifiers data := by
    unfold methodQualifiers FuncDecl.rename
    cases data.method <;> rfl
  have head : signatureQualifiers (data.rename f) style = rename f (signatureQualifiers data style) := by
    unfold signatureQualifiers inAggregate
    rw [quals, ← Option.not_isSome, ← Option.not_isSome, member, renameFlagged]
    rfl
  have tail : signatureTail (data.rename f) style = rename f (signatureTail data style) := by
    unfold signatureTail inAggregate
    rw [quals, member]
    simp [flagged, Function.comp_def]
  have ret : (data.rename f).ret = data.ret.map (f ·) := rfl
  have ps : (data.rename f).params = data.params.map (f ·) := rfl
  have variadic : (data.rename f).variadic = data.variadic := rfl
  simp [signature, head, tail, mirroredSignatureName mirrors named, ret, ps, variadic]

theorem mirroredFunction {data : FuncDecl}
    (mirrors : ∀ k ∈ DeclNode.consulted a (.function data), Mirrors f a b k) (clean : Clean (function a data)) :
    function b (data.rename f) = rename f (function a data) := by
  have parent : styleOf data.lifecycle = .define → ∀ m, data.method = some m → Mirrors f a b m.parent.ref := by
    intro define m method
    have split : data.lifecycle = .split := by
      cases lifecycle : data.lifecycle <;> simp [styleOf, lifecycle] at define ⊢
    exact mirrors _ (by simp [DeclNode.consulted, split, method])
  have head := mirroredSignature parent (cleanAppend.mp clean).1
  have tail : functionEnd (data.rename f) = rename f (functionEnd data) := by
    have special : (data.rename f).special = data.special := by
      unfold FuncDecl.special FuncDecl.rename
      cases data.method <;> rfl
    have body : (data.rename f).body = data.body.map (f ·) := rfl
    have inits : (data.rename f).inits = data.inits.map (·.rename f) := rfl
    unfold functionEnd
    rw [special, body, inits]
    cases data.special <;> cases data.body <;> simp
  rw [function, function, renameAppend, ← head, ← tail]
  rfl

theorem mirroredDecl {n : DeclNode} (mirrors : ∀ k ∈ DeclNode.consulted a n, Mirrors f a b k)
    (clean : Clean (decl a n)) : decl b (n.rename f) = rename f (decl a n) := by
  cases n with
  | raw text => rfl
  | var data =>
    have declared := (cleanAppend.mp (cleanAppend.mp (cleanAppend.mp clean).1).1).2
    have written : declarator b (f data.ty) (declaredName data) = _ := mirroredDeclarator mirrors declared
    have ty : (data.rename f).ty = f data.ty := rfl
    have name : declaredName (data.rename f) = declaredName data := rfl
    have shape : (data.rename f).shape = data.shape.rename f := rfl
    have init : (data.rename f).init = data.init.map (f ·) := rfl
    have quals : (data.rename f).quals = data.quals := rfl
    simp [decl, DeclNode.rename, var, ty, name, written, shape, init, quals, initializer]
  | function data => exact mirroredFunction mirrors clean
  | splitForward func =>
    refine renameLookup clean fun data found => ⟨data.rename f, ?_, fun clean => ?_⟩
    · exact functionAtIff.mpr (mirroredNode (mirrors _ (List.mem_singleton_self _)) (functionAtIff.mp found))
    · have written := mirroredSignature (f := f) (a := a) (b := b) (by simp) (cleanAppend.mp clean).1
      simp [written]
  | aggregate ty forward | enumeration ty forward =>
    cases forward with
    | true => exact mirroredTagReference (mirrors _ (List.mem_singleton_self _)) clean
    | false => rfl
  | typeDef ty =>
    refine renameLookup clean fun pair found => ?_
    obtain ⟨name, aliased⟩ := pair
    obtain ⟨there, mirrored⟩ := mirroredSynonym (mirrors _ (List.mem_cons_self ..)) found
    refine ⟨_, mirrored, fun clean => ?_⟩
    have reads : ∀ k ∈ a.declaring aliased, Mirrors f a b k := fun k mem => mirrors k <| by
      simp [DeclNode.consulted, there, mem]
    have written := mirroredDeclarator reads (cleanCons.mp clean).2
    simp [written]
  | usingType ty =>
    refine renameLookup clean fun pair found => ?_
    obtain ⟨name, aliased⟩ := pair
    obtain ⟨there, mirrored⟩ := mirroredSynonym (mirrors _ (List.mem_cons_self ..)) found
    exact ⟨_, mirrored, fun _ => rfl⟩
  | template ps inner => simp [decl, DeclNode.rename]

theorem mirroredText {c : Category} {n : Node c} (dialect : b.dialect = a.dialect)
    (mirrors : ∀ k ∈ Node.consulted a c n, Mirrors f a b k) (clean : Clean (node a c n)) :
    node b c (n.rename f c) = rename f (node a c n) := by
  cases c with
  | type => exact mirroredType dialect mirrors clean
  | decl => exact mirroredDecl mirrors clean
  | expr => exact mirroredExpr mirrors clean
  | stmt => exact renameStmt f n
  | directive => exact renameDirective f n
  | scope => exact renameScope f n

theorem cleanFound {r : NodeRef} (clean : Clean (pieces a r)) : ∃ n, a.node r.handle = .ok n := by
  unfold pieces at clean
  cases found : a.node r.handle with
  | ok n => exact ⟨n, rfl⟩
  | error cause =>
    rw [found] at clean
    exact absurd (List.mem_singleton_self _) (clean cause)

theorem mirroredPieces {r : NodeRef} (dialect : b.dialect = a.dialect) (here : Mirrors f a b r)
    (mirrors : ∀ k ∈ a.consulted r, Mirrors f a b k) (clean : Clean (pieces a r)) :
    pieces b (r.rename f) = rename f (pieces a r) := by
  obtain ⟨n, found⟩ := cleanFound clean
  have before : pieces a r = node a r.category n := Arena.piecesOf found
  have after : pieces b (r.rename f) = node b r.category (Node.rename f r.category n) := Arena.piecesOf (here n found)
  unfold Arena.consulted at mirrors
  rw [found] at mirrors
  rw [before] at clean
  rw [after, before]
  exact mirroredText dialect mirrors clean

theorem mirroredContinues {r : NodeRef} {n : Node r.category} (here : Mirrors f a b r)
    (found : a.node r.handle = .ok n) : continuesLines b (r.rename f) = continuesLines a r := by
  obtain ⟨c, arena, index⟩ := r
  cases c with
  | scope =>
    have kind : (n.kind.rename f).continuesLines = n.kind.continuesLines := by cases n.kind <;> rfl
    have found : a.node (⟨arena, index⟩ : ScopeRef) = .ok n := found
    have there : b.node (f (⟨arena, index⟩ : ScopeRef)) = .ok (n.rename f) := here n found
    have before : continuesLines a ⟨.scope, arena, index⟩ = n.kind.continuesLines := by
      simp only [continuesLines, found]
    have after : continuesLines b (f (⟨arena, index⟩ : ScopeRef)).ref = (n.kind.rename f).continuesLines := by
      simp only [continuesLines, Handle.ref, there]
      rfl
    exact (after.trans kind).trans before.symm
  | _ => rfl

end Written

end CSource
