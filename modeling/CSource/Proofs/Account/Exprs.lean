import CSource.Proofs.Account.Decls

/-!
The account of every action that makes an expression, the short forms included.
-/

namespace CSource

open Build

variable {given : Slot → Prop} {e : Effect} {a b : Arena}

theorem rawExprAccount (text : String) : Account given e a (rawExpr text) [] fun x b => b.Has x.plain :=
  .store (c := .expr) (n := .raw text) nofun nofun trivial nofun rfl rfl

theorem literalExprAccount (l : Literal) : Account given e a (literalExpr l) [] fun x b => b.Has x.plain :=
  rawExprAccount (l.text a.dialect)

theorem varExprAccount {decl : DeclRef} (known : ∀ s ∈ [decl.plain], Known given a s) :
    Account given e a (varExpr decl) [decl.plain] fun x b => b.Has x.plain := by
  unfold varExpr
  exact .check (ownChecks decl) fun own => .store (c := .expr) own known trivial nofun rfl rfl

theorem typeExprAccount {ty : TypeRef} (known : ∀ s ∈ [ty.plain], Known given a s) :
    Account given e a (typeExpr ty) [ty.plain] fun x b => b.Has x.plain := by
  unfold typeExpr
  exact .check (ownChecks ty) fun own => .store (c := .expr) own known trivial nofun rfl rfl

theorem subscriptExprAccount {base index : ExprRef} (known : ∀ s ∈ [base.plain, index.plain], Known given a s) :
    Account given e a (subscriptExpr base index) [base.plain, index.plain] fun x b => b.Has x.plain := by
  unfold subscriptExpr
  refine .check (ownChecks base) fun own₁ => ?_
  refine .check (ownChecks index) fun own₂ => ?_
  exact .store (c := .expr) (List.forall_mem_append.mpr ⟨own₁, own₂⟩) known trivial nofun rfl rfl

theorem callExprAccount {callee : ExprRef} {args : List ExprRef}
    (known : ∀ s ∈ callee.plain :: plainSlots args, Known given a s) :
    Account given e a (callExpr callee args) (callee.plain :: plainSlots args) fun x b => b.Has x.plain := by
  unfold callExpr
  refine .check (ownChecks callee) fun own₁ => ?_
  refine .check (ownEachChecks args) fun own₂ => ?_
  exact .store (c := .expr) (List.forall_mem_append.mpr ⟨own₁, own₂⟩) known trivial nofun rfl rfl

theorem unaryExprAccount {op : String} {x : ExprRef} (known : ∀ s ∈ [x.plain], Known given a s) :
    Account given e a (unaryExpr op x) [x.plain] fun x b => b.Has x.plain := by
  unfold unaryExpr
  exact .check (ownChecks x) fun own => .store (c := .expr) own known trivial nofun rfl rfl

theorem postfixExprAccount {x : ExprRef} {op : String} (known : ∀ s ∈ [x.plain], Known given a s) :
    Account given e a (postfixExpr x op) [x.plain] fun x b => b.Has x.plain := by
  unfold postfixExpr
  exact .check (ownChecks x) fun own => .store (c := .expr) own known trivial nofun rfl rfl

theorem binaryExprAccount {lhs rhs : ExprRef} {op : String}
    (known : ∀ s ∈ [lhs.plain, rhs.plain], Known given a s) :
    Account given e a (binaryExpr lhs op rhs) [lhs.plain, rhs.plain] fun x b => b.Has x.plain := by
  unfold binaryExpr
  refine .check (ownChecks lhs) fun own₁ => ?_
  refine .check (ownChecks rhs) fun own₂ => ?_
  exact .store (c := .expr) (List.forall_mem_append.mpr ⟨own₁, own₂⟩) known trivial nofun rfl rfl

theorem ternaryExprAccount {cond yes no : ExprRef}
    (known : ∀ s ∈ [cond.plain, yes.plain, no.plain], Known given a s) :
    Account given e a (ternaryExpr cond yes no) [cond.plain, yes.plain, no.plain] fun x b => b.Has x.plain := by
  unfold ternaryExpr
  refine .check (ownChecks cond) fun own₁ => ?_
  refine .check (ownChecks yes) fun own₂ => ?_
  refine .check (ownChecks no) fun own₃ => ?_
  have own := List.forall_mem_append.mpr ⟨own₁, List.forall_mem_append.mpr ⟨own₂, own₃⟩⟩
  exact .store (c := .expr) own known trivial nofun rfl rfl

theorem castExprAccount {ty : TypeRef} {x : ExprRef} (known : ∀ s ∈ [ty.plain, x.plain], Known given a s) :
    Account given e a (castExpr ty x) [ty.plain, x.plain] fun x b => b.Has x.plain := by
  unfold castExpr
  refine .check (ownChecks ty) fun own₁ => ?_
  refine .check (ownChecks x) fun own₂ => ?_
  exact .store (c := .expr) (List.forall_mem_append.mpr ⟨own₁, own₂⟩) known trivial nofun rfl rfl

theorem parenExprAccount {x : ExprRef} (known : ∀ s ∈ [x.plain], Known given a s) :
    Account given e a (parenExpr x) [x.plain] fun x b => b.Has x.plain := by
  unfold parenExpr
  exact .check (ownChecks x) fun own => .store (c := .expr) own known trivial nofun rfl rfl

theorem initListExprAccount {items : List ExprRef} (known : ∀ s ∈ plainSlots items, Known given a s) :
    Account given e a (initListExpr items) (plainSlots items) fun x b => b.Has x.plain := by
  unfold initListExpr
  exact .check (ownEachChecks items) fun own => .store (c := .expr) own known trivial nofun rfl rfl

theorem designatedExprAccount {fields : List Designator}
    (known : ∀ s ∈ plainSlots (fields.map (·.value)), Known given a s) :
    Account given e a (designatedExpr fields) (plainSlots (fields.map (·.value))) fun x b => b.Has x.plain := by
  unfold designatedExpr
  exact .check (ownEachChecks _) fun own => .store (c := .expr) own known trivial nofun rfl rfl

theorem genericExprAccount {control : ExprRef} (known : ∀ s ∈ [control.plain], Known given a s) :
    Account given e a (genericExpr control) [control.plain] fun g b => b.Has (g.handle.as (.role .generic)) := by
  unfold genericExpr
  refine .check (requireChecks _) fun language => ?_
  refine .check (ownChecks control) fun own => ?_
  have stored : Account given e a (alloc .expr (.generic control [])) [control.plain]
      fun x b => b.Has (x.as (.role .generic)) :=
    .store (c := .expr) own known rfl (List.forall_mem_singleton.mpr language) rfl rfl
  exact stored.map fun _ _ _ has => has

theorem addAssociationAccount {g : Typed .generic} {ty : Option TypeRef} {value : ExprRef}
    (known : ∀ s ∈ optionSlots ty ++ [value.plain], Known given a s) :
    Account given .does a (addAssociation g ty value)
      (g.handle.as (.role .generic) :: (optionSlots ty ++ [value.plain])) fun _ _ => True := by
  unfold addAssociation
  refine .check (ownOptionChecks ty) fun own₁ => ?_
  refine .check (ownChecks value) fun own₂ => ?_
  have own := List.forall_mem_append.mpr ⟨own₁, own₂⟩
  refine .read fun n here => ?_
  cases n with
  | generic control assocs =>
    refine .update here ⟨.association control assocs _, ?_, fun f => .inl⟩
      (List.forall_mem_cons.mpr ⟨nodeOwn here, own⟩) fun _ _ => trivial
    intro s mem
    simp only [Node.slots, ExprNode.slots, List.flatMap_append, List.flatMap_cons, List.flatMap_nil,
      List.append_nil, ← List.cons_append] at mem ⊢
    rcases List.mem_append.mp mem with old | new
    · exact .inl old
    · exact .inr ⟨own s new, known s new⟩
  | _ => exact .throw

theorem qualNameExprAccount (name : QualName) :
    Account given e a (qualNameExpr name) [] fun x b => b.Has x.plain := by
  unfold qualNameExpr
  refine .check (requireChecks _) fun language => ?_
  exact .store (c := .expr) (n := .qualName name) nofun nofun trivial (List.forall_mem_singleton.mpr language) rfl rfl

theorem lambdaExprAccount {captures : List Capture} {params : List DeclRef} {variadic : Bool}
    {ret : Option TypeRef} (known : ∀ s ∈ plainSlots params ++ optionSlots ret, Known given a s) :
    Account given e a (lambdaExpr captures params variadic ret) (plainSlots params ++ optionSlots ret)
      fun l b => b.Has (l.handle.as (.role .lambda)) := by
  unfold lambdaExpr
  refine .check (requireChecks _) fun language => ?_
  refine .check (ownEachChecks params) fun own₁ => ?_
  refine .check (ownOptionChecks ret) fun own₂ => ?_
  refine .bind .newBody fun body b extended _ has => ?_
  have own : ∀ s ∈ plainSlots params ++ optionSlots ret, s.Own b :=
    fun s mem => extended.keepsOwn.mpr (List.forall_mem_append.mpr ⟨own₁, own₂⟩ s mem)
  have stored : Account given e b (alloc .expr (.lambda ⟨captures, params, variadic, ret, body⟩))
      (body.as (.place .function) :: (plainSlots params ++ optionSlots ret))
      fun x b => b.Has (x.as (.role .lambda)) :=
    .store (c := .expr) (List.forall_mem_cons.mpr ⟨has.own, own⟩)
      (List.forall_mem_cons.mpr ⟨.has has, extended.keepsEach known⟩) trivial
      (List.forall_mem_singleton.mpr (extended.dialect.trans language)) rfl rfl
  exact (stored.weaken (fun _ => own) fun _ _ _ has => has).map fun _ _ _ has => has

theorem newExprAccount {data : NewExpr} (known : ∀ s ∈ data.slots, Known given a s) :
    Account given e a (newExpr data) data.slots fun x b => b.Has x.plain := by
  unfold newExpr
  refine .check (requireChecks _) fun language => ?_
  refine .check (ownChecks data.ty) fun own₁ => ?_
  refine .check (ownEachChecks data.args) fun own₂ => ?_
  refine .check (ownOptionChecks data.arraySize) fun own₃ => ?_
  refine .check (ownOptionChecks data.placement) fun own₄ => ?_
  have own := List.forall_mem_append.mpr
    ⟨List.forall_mem_append.mpr ⟨List.forall_mem_append.mpr ⟨own₁, own₂⟩, own₃⟩, own₄⟩
  exact .store (c := .expr) own known trivial (List.forall_mem_singleton.mpr language) rfl rfl

theorem deleteExprAccount {x : ExprRef} {array : Bool} (known : ∀ s ∈ [x.plain], Known given a s) :
    Account given e a (deleteExpr x array) [x.plain] fun x b => b.Has x.plain := by
  unfold deleteExpr
  refine .check (requireChecks _) fun language => ?_
  refine .check (ownChecks x) fun own => ?_
  exact .store (c := .expr) own known trivial (List.forall_mem_singleton.mpr language) rfl rfl

theorem userLiteralExprAccount {x : ExprRef} {suffix : String} (known : ∀ s ∈ [x.plain], Known given a s) :
    Account given e a (userLiteralExpr x suffix) [x.plain] fun x b => b.Has x.plain := by
  unfold userLiteralExpr
  refine .check (requireChecks _) fun language => ?_
  refine .check (ownChecks x) fun own => ?_
  exact .store (c := .expr) own known trivial (List.forall_mem_singleton.mpr language) rfl rfl

theorem instantiationExprAccount {template : DeclRef} {args : List TemplateArg}
    (known : ∀ s ∈ template.plain :: args.map (·.slot), Known given a s) :
    Account given e a (instantiationExpr template args) (template.plain :: args.map (·.slot))
      fun x b => b.Has x.plain := by
  unfold instantiationExpr
  refine .check (requireChecks _) fun language => ?_
  refine .check (ownChecks template) fun own₁ => ?_
  refine .check (ownArgsChecks args) fun own₂ => ?_
  exact .store (c := .expr) (List.forall_mem_append.mpr ⟨own₁, own₂⟩) known trivial
    (List.forall_mem_singleton.mpr language) rfl rfl

theorem rawInstantiationExprAccount {name : QualName} {args : List TemplateArg}
    (known : ∀ s ∈ args.map (·.slot), Known given a s) :
    Account given e a (rawInstantiationExpr name args) (args.map (·.slot)) fun x b => b.Has x.plain := by
  unfold rawInstantiationExpr
  refine .bind (rawTemplateDeclAccount name) fun template b extended _ has => ?_
  have known' := List.forall_mem_cons.mpr ⟨.has has, extended.keepsEach known⟩
  exact (instantiationExprAccount known').weaken (fun own => (List.forall_mem_cons.mp own).2) fun _ _ _ h => h

theorem packExpansionExprAccount {pack : ExprRef} (known : ∀ s ∈ [pack.plain], Known given a s) :
    Account given e a (packExpansionExpr pack) [pack.plain] fun x b => b.Has x.plain := by
  unfold packExpansionExpr
  refine .check (requireChecks _) fun language => ?_
  refine .check (ownChecks pack) fun own => ?_
  exact .store (c := .expr) own known trivial (List.forall_mem_singleton.mpr language) rfl rfl

theorem foldExprAccount {op : String} {pack : ExprRef} {kind : Fold}
    (known : ∀ s ∈ pack.plain :: kind.slots, Known given a s) :
    Account given e a (foldExpr op pack kind) (pack.plain :: kind.slots) fun x b => b.Has x.plain := by
  unfold foldExpr
  refine .check (requireChecks _) fun language => ?_
  refine .check (ownChecks pack) fun own₁ => ?_
  refine .check (ownFoldChecks kind) fun own₂ => ?_
  exact .store (c := .expr) (List.forall_mem_append.mpr ⟨own₁, own₂⟩) known trivial
    (List.forall_mem_singleton.mpr language) rfl rfl

theorem selectExprAccount {lhs : ExprRef} {selection : Selection} {member : String}
    (known : ∀ s ∈ [lhs.plain], Known given a s) :
    Account given e a (selectExpr lhs selection member) [lhs.plain] fun x b => b.Has x.plain := by
  unfold selectExpr
  refine .bind (rawExprAccount member) fun rhs b extended _ has => ?_
  have known' := List.forall_mem_append.mpr ⟨extended.keepsEach known, List.forall_mem_singleton.mpr (.has has)⟩
  exact (binaryExprAccount known').weaken (fun own => (List.forall_mem_append.mp own).1) fun _ _ _ h => h

theorem sizeofExprAccount {ty : TypeRef} (known : ∀ s ∈ [ty.plain], Known given a s) :
    Account given e a (sizeofExpr ty) [ty.plain] fun x b => b.Has x.plain := by
  unfold sizeofExpr
  refine .bind (rawExprAccount _) fun callee b extended _ hasCallee => ?_
  refine .bindFirst (typeExprAccount (extended.keepsEach known)) fun operand c extended' hasOperand => ?_
  have both : ∀ s ∈ callee.plain :: plainSlots [operand], Known given c s :=
    .pair (extended'.keepsHas hasCallee) hasOperand
  exact (callExprAccount both).forget

theorem vaArgExprAccount {list : ExprRef} {ty : TypeRef} (known : ∀ s ∈ [list.plain, ty.plain], Known given a s) :
    Account given e a (vaArgExpr list ty) [list.plain, ty.plain] fun x b => b.Has x.plain := by
  unfold vaArgExpr
  refine .bind (rawExprAccount _) fun callee b extended _ hasCallee => ?_
  have later := List.forall_mem_cons.mp (extended.keepsEach known)
  refine .bind (typeExprAccount later.2) fun operand c extended' own hasOperand => ?_
  have known' : ∀ s ∈ [callee.plain, list.plain, operand.plain], Known given c s :=
    List.forall_mem_cons.mpr ⟨.has (extended'.keepsHas hasCallee),
      List.forall_mem_cons.mpr ⟨extended'.keepsKnown later.1, List.forall_mem_singleton.mpr (.has hasOperand)⟩⟩
  refine (callExprAccount known').weaken (fun passed => ?_) fun _ _ _ h => h
  exact List.forall_mem_cons.mpr ⟨passed _ (by simp [plainSlots]), own⟩

theorem operandAccount (x : Operand) (known : ∀ s ∈ x.slots, Known given a s) :
    Account given e a (operand x) x.slots fun x b => b.Has x.plain := by
  cases x with
  | literal l => exact literalExprAccount l
  | ident name => exact rawExprAccount name
  | qualName name => exact qualNameExprAccount name
  | expr x => exact parenExprAccount known
  | var decl => exact varExprAccount known

theorem parenFreshAccount {x : ExprRef} (has : a.Has x.plain) :
    Account given e a (parenExpr x) [] fun x b => b.Has x.plain :=
  (parenExprAccount (List.forall_mem_singleton.mpr (.has has))).forget

theorem shortUnaryAccount {op : String} {x : Operand} (known : ∀ s ∈ x.slots, Known given a s) :
    Account given e a (shortUnary op x) x.slots fun x b => b.Has x.plain := by
  unfold shortUnary
  refine .bindFirst (operandAccount x known) fun x b _ has => ?_
  refine .bindFirst (unaryExprAccount (List.forall_mem_singleton.mpr (.has has))).forget fun y c _ has => ?_
  exact parenFreshAccount has

theorem shortPostfixAccount {x : Operand} {op : String} (known : ∀ s ∈ x.slots, Known given a s) :
    Account given e a (shortPostfix x op) x.slots fun x b => b.Has x.plain := by
  unfold shortPostfix
  refine .bindFirst (operandAccount x known) fun x b _ has => ?_
  refine .bindFirst (postfixExprAccount (List.forall_mem_singleton.mpr (.has has))).forget fun y c _ has => ?_
  exact parenFreshAccount has

theorem shortBinaryAccount {lhs rhs : Operand} {op : String}
    (known : ∀ s ∈ lhs.slots ++ rhs.slots, Known given a s) :
    Account given e a (shortBinary lhs op rhs) (lhs.slots ++ rhs.slots) fun x b => b.Has x.plain := by
  have known := List.forall_mem_append.mp known
  unfold shortBinary
  refine .bind (operandAccount lhs known.1) fun l b extended own hasLeft => .withOwn own ?_
  refine .bindFirst (operandAccount rhs (extended.keepsEach known.2)) fun r c extended hasRight => ?_
  refine .bindFirst (binaryExprAccount (.pair (extended.keepsHas hasLeft) hasRight)).forget fun y d _ has => ?_
  exact parenFreshAccount has

theorem operandsAccount (xs : List Operand) (known : ∀ s ∈ xs.flatMap (·.slots), Known given a s) :
    Account given e a (xs.mapM operand) (xs.flatMap (·.slots)) fun ys b => ∀ y ∈ ys, b.Has y.plain := by
  induction xs generalizing a e with
  | nil => exact .pure nofun nofun
  | cons x xs ih =>
    rw [List.flatMap_cons] at known ⊢
    have known := List.forall_mem_append.mp known
    rw [List.mapM_cons]
    refine .bind (operandAccount x known.1) fun y b extended own has => .withOwn own ?_
    exact (ih (extended.keepsEach known.2)).map fun ys c later rest =>
      List.forall_mem_cons.mpr ⟨later.keepsHas has, rest⟩

theorem shortCallAccount {callee : Operand} {args : List Operand}
    (known : ∀ s ∈ callee.slots ++ args.flatMap (·.slots), Known given a s) :
    Account given e a (shortCall callee args) (callee.slots ++ args.flatMap (·.slots))
      fun x b => b.Has x.plain := by
  have known := List.forall_mem_append.mp known
  unfold shortCall
  refine .bind (operandAccount callee known.1) fun f b extended own hasCallee => .withOwn own ?_
  refine .bindFirst (operandsAccount args (extended.keepsEach known.2)) fun ys c extended hasArgs => ?_
  have all : ∀ s ∈ f.plain :: plainSlots ys, Known given c s := by
    refine List.forall_mem_cons.mpr ⟨.has (extended.keepsHas hasCallee), ?_⟩
    exact List.forall_mem_map.mpr fun y mem => .has (hasArgs y mem)
  exact .bindFirst (callExprAccount all).forget fun y d _ has => parenFreshAccount has

theorem subscriptsAccount {base : ExprRef} (indices : List Operand) (has : a.Has base.plain)
    (known : ∀ s ∈ indices.flatMap (·.slots), Known given a s) :
    Account given e a (subscripts base indices) (indices.flatMap (·.slots)) fun x b => b.Has x.plain := by
  induction indices generalizing a base e with
  | nil => exact .pure nofun has
  | cons index rest ih =>
    rw [List.flatMap_cons] at known ⊢
    have known := List.forall_mem_append.mp known
    unfold subscripts
    refine .bind (operandAccount index known.1) fun i b extended own hasIndex => .withOwn own ?_
    refine .bind (subscriptExprAccount (.pair (extended.keepsHas has) hasIndex)).forget
      fun x c extended' _ hasBase => ?_
    exact ih hasBase (extended'.keepsEach (extended.keepsEach known.2))

theorem shortIndexAccount {base : Operand} {indices : List Operand}
    (known : ∀ s ∈ base.slots ++ indices.flatMap (·.slots), Known given a s) :
    Account given e a (shortIndex base indices) (base.slots ++ indices.flatMap (·.slots))
      fun x b => b.Has x.plain := by
  have known := List.forall_mem_append.mp known
  unfold shortIndex
  refine .bind (operandAccount base known.1) fun x b extended own hasBase => .withOwn own ?_
  refine .bindFirst (subscriptsAccount indices hasBase (extended.keepsEach known.2)) fun y c _ has => ?_
  exact parenFreshAccount has

end CSource
