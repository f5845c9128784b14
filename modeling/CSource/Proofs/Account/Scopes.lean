import CSource.Proofs.Account.Exprs

/-!
The account of every action that puts a declaration into a scope. The entry is put last, so a scope that cannot
take it leaves nothing behind but what was made for it.
-/

namespace CSource

open Build

variable {given : Slot → Prop} {e : Effect} {a b : Arena} {scope : ScopeRef}

theorem newTopLevelAccount : Account given e a newTopLevel [] fun p b => b.Has p.slot := by
  unfold newTopLevel
  have made : Account given e a (newScope .topLevel) [] fun h b => b.Has (h.as (.place .topLevel)) :=
    .newScope rfl rfl
  exact made.map fun _ _ _ has => has

theorem pushEntryAccount (entry : Entry) (known : ∀ s ∈ [entry.slot], Known given a s) :
    Account given .does a (pushEntry scope entry) [entry.slot] fun _ _ => True := by
  unfold pushEntry
  refine .check (ownEntryChecks entry) fun own => ?_
  refine .read fun n here => ?_
  refine .update here ⟨.entry n entry, ?_, nofun⟩ own fun _ _ => trivial
  intro s mem
  simp only [Node.slots, ScopeNode.slots, List.map_append, List.map_cons, List.map_nil,
    ← List.append_assoc] at mem ⊢
  rcases List.mem_append.mp mem with old | new
  · exact .inl old
  · exact .inr ⟨own s new, known s new⟩

theorem pushDeclAccount {d : DeclRef} (known : ∀ s ∈ [d.plain], Known given a s) :
    Account given .does a (pushDecl scope d) [d.plain] fun x _ => x = d :=
  .map (pushEntryAccount (.decl d) known) fun _ _ _ _ => rfl

theorem pushStmtAccount {s : StmtRef} (known : ∀ t ∈ [s.plain], Known given a t) :
    Account given .does a (pushStmt scope s) [s.plain] fun x _ => x = s :=
  .map (pushEntryAccount (.stmt s) known) fun _ _ _ _ => rfl

theorem pushDirectiveAccount {d : DirectiveRef} (known : ∀ s ∈ [d.plain], Known given a s) :
    Account given .does a (pushDirective scope d) [d.plain] fun x _ => x = d :=
  .map (pushEntryAccount (.directive d) known) fun _ _ _ _ => rfl

theorem declStmtAccount {d : DeclRef} (known : ∀ s ∈ [d.plain], Known given a s) :
    Account given e a (declStmt d) [d.plain] fun s b => b.Has (s.as .clause) := by
  unfold declStmt
  exact .check (ownChecks d) fun own => .store (c := .stmt) own known trivial nofun rfl rfl

theorem pushDeclStmtAccount {d : DeclRef} (known : ∀ s ∈ [d.plain], Known given a s) :
    Account given .does a (pushDeclStmt scope d) [d.plain] fun x _ => x = d := by
  unfold pushDeclStmt
  refine .bindFirst (declStmtAccount known) fun s b _ has => ?_
  have entry : ∀ t ∈ [(Entry.stmt s).slot], Known given b t := List.forall_mem_singleton.mpr (.has has.plain)
  exact .map (pushEntryAccount (.stmt s) entry).forget fun _ _ _ _ => rfl

theorem putFreshDecl {d : DeclRef} (has : a.Has d.plain) :
    Account given .does a (pushDecl scope d) [] fun x b => b.Has x.plain := by
  refine (pushDeclAccount (List.forall_mem_singleton.mpr (.has has))).weaken nofun fun x b later same => ?_
  rw [same]
  exact later.keepsHas has

theorem putFreshDeclStmt {d : DeclRef} (has : a.Has d.plain) :
    Account given .does a (pushDeclStmt scope d) [] fun x b => b.Has x.plain := by
  refine (pushDeclStmtAccount (List.forall_mem_singleton.mpr (.has has))).weaken nofun fun x b later same => ?_
  rw [same]
  exact later.keepsHas has

theorem defRawAccount (text : String) :
    Account given .does a (defRaw scope text) [] fun d b => b.Has d.plain := by
  unfold defRaw
  exact .bindFirst (rawDeclAccount text) fun d b _ has => putFreshDecl has

theorem defVarAccount {name : QualName} {ty : TypeRef} {init : Option ExprRef}
    (known : ∀ s ∈ ty.plain :: optionSlots init, Known given a s) :
    Account given .does a (defVar scope name ty init) (ty.plain :: optionSlots init) fun d b => b.Has d.plain := by
  unfold defVar
  exact .bindFirst (varDeclAccount known) fun d b _ has => putFreshDeclStmt has

theorem defArrayVarAccount {name : QualName} {ty : TypeRef} {sizes : List ExprRef} {init : Option ExprRef}
    (known : ∀ s ∈ ty.plain :: optionSlots init ++ plainSlots sizes, Known given a s) :
    Account given .does a (defArrayVar scope name ty sizes init) (ty.plain :: optionSlots init ++ plainSlots sizes)
      fun d b => b.Has d.plain := by
  unfold defArrayVar
  exact .bindFirst (arrayVarDeclAccount known) fun d b _ has => putFreshDeclStmt has

theorem defConstructedVarAccount {name : QualName} {ty : TypeRef} {args : List ExprRef} {braced : Bool}
    (known : ∀ s ∈ ty.plain :: plainSlots args, Known given a s) :
    Account given .does a (defConstructedVar scope name ty args braced) (ty.plain :: plainSlots args)
      fun d b => b.Has d.plain := by
  unfold defConstructedVar
  exact .bindFirst (constructedVarDeclAccount known) fun d b _ has => putFreshDeclStmt has

theorem typedefAccount {name : QualName} {aliased : TypeRef} (known : ∀ s ∈ [aliased.plain], Known given a s) :
    Account given e a (newSynonym name aliased .typeDef) [aliased.plain]
      fun r b => b.Has r.1.plain ∧ b.Has r.2.plain :=
  newSynonymAccount known (fun _ => rfl) (fun _ => trivial) nofun

theorem usingAccount {name : QualName} {aliased : TypeRef} (known : ∀ s ∈ [aliased.plain], Known given a s)
    (language : a.dialect = Feature.aliasDeclaration.dialect) :
    Account given e a (newSynonym name aliased .usingType) [aliased.plain]
      fun r b => b.Has r.1.plain ∧ b.Has r.2.plain :=
  newSynonymAccount known (fun _ => rfl) (fun _ => trivial) fun _ => List.forall_mem_singleton.mpr language

theorem defTypedefAccount {name : QualName} {aliased : TypeRef} (known : ∀ s ∈ [aliased.plain], Known given a s) :
    Account given .does a (defTypedef scope name aliased) [aliased.plain] fun ty b => b.Has ty.plain := by
  unfold defTypedef
  refine .bindFirst (typedefAccount known) fun r b _ has => ?_
  exact .discard (putFreshDeclStmt has.1) fun c later => later.keepsHas has.2

theorem defUsingAccount {name : QualName} {aliased : TypeRef} (known : ∀ s ∈ [aliased.plain], Known given a s) :
    Account given .does a (defUsing scope name aliased) [aliased.plain] fun ty b => b.Has ty.plain := by
  unfold defUsing
  refine .check (requireChecks _) fun language => ?_
  refine .bindFirst (usingAccount known language) fun r b _ has => ?_
  exact .discard (putFreshDeclStmt has.1) fun c later => later.keepsHas has.2

theorem templateFreshAccount {params : List DeclRef} {inner : DeclRef} (has : a.Has inner.plain)
    (known : ∀ s ∈ plainSlots params, Known given a s) :
    Account given e a (templateDecl params inner) (plainSlots params) fun d b => b.Has d.plain :=
  (templateDeclAccount (List.forall_mem_cons.mpr ⟨.has has, known⟩)).weaken
    (fun own => (List.forall_mem_cons.mp own).2) fun _ _ _ h => h

theorem defVarTemplateAccount {name : QualName} {params : List DeclRef} {ty : TypeRef} {init : Option ExprRef}
    (known : ∀ s ∈ ty.plain :: optionSlots init ++ plainSlots params, Known given a s) :
    Account given .does a (defVarTemplate scope name params ty init)
      (ty.plain :: optionSlots init ++ plainSlots params) fun r b => b.Has r.1.plain ∧ b.Has r.2.plain := by
  have known := List.forall_mem_append.mp known
  unfold defVarTemplate
  refine .bind (varDeclAccount known.1) fun var b extended own hasVar => .withOwn own ?_
  refine .bindFirst (templateFreshAccount hasVar (extended.keepsEach known.2)) fun template c extended hasTemplate => ?_
  exact .discard (putFreshDeclStmt hasTemplate) fun d later =>
    ⟨later.keepsHas hasTemplate, later.keepsHas (extended.keepsHas hasVar)⟩

theorem defUsingTemplateAccount {name : QualName} {params : List DeclRef} {aliased : TypeRef}
    (known : ∀ s ∈ aliased.plain :: plainSlots params, Known given a s) :
    Account given .does a (defUsingTemplate scope name params aliased) (aliased.plain :: plainSlots params)
      fun r b => b.Has r.1.plain ∧ b.Has r.2.plain := by
  have known := List.forall_mem_cons.mp known
  unfold defUsingTemplate
  refine .check (requireChecks _) fun language => ?_
  refine .bind (usingAccount (List.forall_mem_singleton.mpr known.1) language)
    fun r b extended own has => .withOwn own ?_
  refine .bindFirst (templateFreshAccount has.1 (extended.keepsEach known.2)) fun template c extended hasTemplate => ?_
  exact .discard (putFreshDeclStmt hasTemplate) fun d later =>
    ⟨later.keepsHas hasTemplate, later.keepsHas (extended.keepsHas has.2)⟩

theorem defAggregateAccount (kind : AggregateKind) (name : QualName) :
    Account given .does a (defAggregate scope kind name) []
      fun c b => b.Has (c.ty.as .aggregate) ∧ b.Has c.decl.plain := by
  unfold defAggregate
  refine .bindFirst (newAggregateAccount kind name) fun c b _ has => ?_
  exact .discard (putFreshDeclStmt has.2) fun d later => ⟨later.keepsHas has.1, later.keepsHas has.2⟩

theorem defEnumAccount (name : QualName) (key : Option EnumKey) :
    Account given .does a (defEnum scope name key) []
      fun r b => b.Has (r.ty.as .enumeration) ∧ b.Has r.decl.plain := by
  unfold defEnum
  refine .bindFirst (newEnumAccount name key) fun r b _ has => ?_
  exact .discard (putFreshDeclStmt has.2) fun d later => ⟨later.keepsHas has.1, later.keepsHas has.2⟩

theorem defAggregateTemplateAccount {kind : AggregateKind} {name : QualName} {params : List DeclRef}
    (known : ∀ s ∈ plainSlots params, Known given a s) :
    Account given .does a (defAggregateTemplate scope kind name params) (plainSlots params)
      fun r b => b.Has r.1.plain ∧ b.Has (r.2.ty.as .aggregate) ∧ b.Has r.2.decl.plain := by
  unfold defAggregateTemplate
  refine .check (requireChecks _) fun _ => ?_
  refine .bind (newAggregateAccount kind name) fun c b extended _ has => ?_
  refine .bindFirst (templateFreshAccount has.2 (extended.keepsEach known)) fun template d extended hasTemplate => ?_
  exact .discard (putFreshDeclStmt hasTemplate) fun d later =>
    ⟨later.keepsHas hasTemplate, later.keepsHas (extended.keepsHas has.1), later.keepsHas (extended.keepsHas has.2)⟩

theorem declareAggregateAccount {c : ClassRef} (known : ∀ s ∈ (Issued.aggregate c).slots, Known given a s) :
    Account given .does a (declareAggregate scope c) [] fun d b => b.Has d.plain := by
  unfold declareAggregate
  exact .bindFirst (forwardAggregateAccount known) fun d b _ has => putFreshDeclStmt has

theorem declareEnumAccount {r : EnumRef} (known : ∀ s ∈ (Issued.enumeration r).slots, Known given a s) :
    Account given .does a (declareEnum scope r) [] fun d b => b.Has d.plain := by
  unfold declareEnum
  exact .bindFirst (forwardEnumAccount known) fun d b _ has => putFreshDeclStmt has

end CSource
