import CSource.Proofs.Account.Scopes

/-!
The account of every action that puts a statement into a scope or adds a branch, a case or a handler to one.
-/

namespace CSource

open Build

variable {given : Slot → Prop} {e : Effect} {a b : Arena} {scope : ScopeRef} {shape : Shape}

theorem putFreshStmt {s : StmtRef} (has : a.Has (s.as shape)) :
    Account given .does a (pushStmt scope s) [] fun x b => b.Has (x.as shape) := by
  refine (pushStmtAccount (List.forall_mem_singleton.mpr (.has has.plain))).weaken nofun fun x b later same => ?_
  rw [same]
  exact later.keepsHas has

theorem placeStmtAccount {n : StmtNode} (own : ∀ s ∈ n.slots, s.Own a) (known : ∀ s ∈ n.slots, Known given a s)
    (initial : n.Initial) (allowed : ∀ f ∈ n.features, a.dialect = f.dialect)
    (accepted : shape.acceptsStmt n = true) :
    Account given .does a (placeStmt scope n) n.slots fun s b => b.Has (s.as shape) := by
  unfold placeStmt
  have stored : Account given .makes a (alloc .stmt n) n.slots fun s b => b.Has (s.as shape) :=
    .store (c := .stmt) own known initial allowed accepted rfl
  exact .bindFirst stored fun s b _ has => putFreshStmt has

theorem placeBareAccount {n : StmtNode} (bare : n.slots = []) (initial : n.Initial)
    (allowed : ∀ f ∈ n.features, a.dialect = f.dialect) :
    Account given .does a (placeStmt scope n) [] fun s b => b.Has s.plain := by
  have placed : Account given .does a (placeStmt scope n) n.slots fun s b => b.Has s.plain :=
    placeStmtAccount (by simp [bare]) (by simp [bare]) initial allowed rfl
  exact placed.forget

theorem placeOverBody {β : Type} {n : ScopeRef → StmtNode} {rest : List Slot} {g : ScopeRef → StmtRef → β}
    {post : β → Arena → Prop} (slots : ∀ body, (n body).slots = body.as (.place .function) :: rest)
    (own : ∀ s ∈ rest, s.Own a) (known : ∀ s ∈ rest, Known given a s) (initial : ∀ body, (n body).Initial)
    (allowed : ∀ body, ∀ f ∈ (n body).features, a.dialect = f.dialect)
    (accepted : ∀ body, shape.acceptsStmt (n body) = true)
    (holds : ∀ body s b, b.Has (body.as (.place .function)) → b.Has (s.as shape) → post (g body s) b) :
    Account given .does a (newBody >>= fun body => placeStmt scope (n body) >>= fun s => pure (g body s)) rest
      post := by
  refine .bind .newBody fun body b extended _ has => ?_
  have ownRest : ∀ s ∈ rest, s.Own b := fun s mem => extended.keepsOwn.mpr (own s mem)
  have placed : Account given .does b (placeStmt scope (n body)) rest fun s b => b.Has (s.as shape) := by
    refine (placeStmtAccount ?_ ?_ (initial body) ?_ (accepted body)).weaken (fun _ => ownRest) fun _ _ _ h => h
    · rw [slots]
      exact List.forall_mem_cons.mpr ⟨has.own, ownRest⟩
    · rw [slots]
      exact List.forall_mem_cons.mpr ⟨.has has, extended.keepsEach known⟩
    · exact fun f mem => extended.dialect.trans (allowed body f mem)
  exact placed.map fun s c later hasStmt => holds body s c (later.keepsHas has) hasStmt

theorem exprStmtAccount {x : ExprRef} (own : ∀ s ∈ [x.plain], s.Own a)
    (known : ∀ s ∈ [x.plain], Known given a s) (accepted : shape.acceptsStmt (.expr x) = true) :
    Account given e a (alloc .stmt (.expr x)) [x.plain] fun s b => b.Has (s.as shape) :=
  .store (c := .stmt) own known trivial nofun accepted rfl

theorem placeExprAccount {x : ExprRef} (known : ∀ s ∈ [x.plain], Known given a s) :
    Account given .does a (placeExpr scope x) [x.plain] fun s b => b.Has s.plain := by
  unfold placeExpr
  exact .check (ownChecks x) fun own => placeStmtAccount (n := .expr x) own known trivial nofun rfl

theorem placeDeclAccount {d : DeclRef} (known : ∀ s ∈ [d.plain], Known given a s) :
    Account given .does a (placeDecl scope d) [d.plain] fun s b => b.Has s.plain := by
  unfold placeDecl
  exact .bindFirst (declStmtAccount known) fun s b _ has => putFreshStmt has.plain

theorem placeIfAccount {init : Option DeclRef} {cond : ExprRef} {isConstexpr : Bool}
    (known : ∀ s ∈ cond.plain :: optionSlots init, Known given a s) :
    Account given .does a (placeIf scope init cond isConstexpr) (cond.plain :: optionSlots init)
      fun s b => b.Has (s.handle.as (.role .ifElse)) := by
  unfold placeIf
  refine .check (requireIfChecks ..) fun initLanguage => ?_
  refine .check (requireIfChecks ..) fun constexprLanguage => ?_
  refine .check (ownOptionChecks init) fun own₂ => ?_
  refine .check (ownChecks cond) fun own₁ => ?_
  refine placeOverBody ?_ (List.forall_mem_append.mpr ⟨own₁, own₂⟩) known (fun _ => ⟨rfl, rfl⟩) ?_ (fun _ => rfl)
    fun _ _ _ _ has => has
  · intro body
    simp [StmtNode.slots]
  · intro body
    refine List.forall_mem_append.mpr ⟨List.forall_mem_append.mpr ⟨?_, ?_⟩, nofun⟩
    · exact usedIfAllowed initLanguage
    · exact usedIfAllowed constexprLanguage

theorem placeWhileAccount {cond : ExprRef} (known : ∀ s ∈ [cond.plain], Known given a s) :
    Account given .does a (placeWhile scope cond) [cond.plain] fun s b => b.Has (s.handle.as (.role .loop)) := by
  unfold placeWhile
  refine .check (ownChecks cond) fun own => ?_
  exact placeOverBody (fun _ => rfl) own known (fun _ => trivial) (fun _ => nofun) (fun _ => rfl)
    fun _ _ _ _ has => has

theorem placeDoWhileAccount {cond : ExprRef} (known : ∀ s ∈ [cond.plain], Known given a s) :
    Account given .does a (placeDoWhile scope cond) [cond.plain] fun s b => b.Has (s.handle.as (.role .loop)) := by
  unfold placeDoWhile
  refine .check (ownChecks cond) fun own => ?_
  exact placeOverBody (fun _ => rfl) own known (fun _ => trivial) (fun _ => nofun) (fun _ => rfl)
    fun _ _ _ _ has => has

theorem clauseOwn {init : Option StmtRef} (own : ∀ s ∈ optionSlots init, s.Own a) :
    ∀ s ∈ init.toList.map (·.as .clause), s.Own a := by
  cases init with
  | none => nofun
  | some s => exact List.forall_mem_singleton.mpr (own s.plain (by simp [optionSlots]))

theorem placeForAccount (init : Option StmtRef) {cond step : Option ExprRef}
    (known : ∀ s ∈ init.toList.map (·.as .clause) ++ optionSlots cond ++ optionSlots step, Known given a s) :
    Account given .does a (placeFor scope init cond step)
      (init.toList.map (·.as .clause) ++ optionSlots cond ++ optionSlots step)
      fun s b => b.Has (s.handle.as (.role .loop)) := by
  unfold placeFor
  refine .check (ownOptionChecks init) fun own₁ => ?_
  refine .check (ownOptionChecks cond) fun own₂ => ?_
  refine .check (ownOptionChecks step) fun own₃ => ?_
  have own := List.forall_mem_append.mpr ⟨List.forall_mem_append.mpr ⟨clauseOwn own₁, own₂⟩, own₃⟩
  exact placeOverBody (fun _ => rfl) own known (fun _ => trivial) (fun _ => nofun) (fun _ => rfl)
    fun _ _ _ _ has => has

theorem placeForFreshAccount {s : StmtRef} {cond step : Option ExprRef} (has : a.Has (s.as .clause))
    (known : ∀ s ∈ optionSlots cond ++ optionSlots step, Known given a s) :
    Account given .does a (placeFor scope (some s) cond step) (optionSlots cond ++ optionSlots step)
      fun s b => b.Has (s.handle.as (.role .loop)) := by
  have known' : ∀ t ∈ s.as .clause :: (optionSlots cond ++ optionSlots step), Known given a t :=
    List.forall_mem_cons.mpr ⟨.has has, known⟩
  exact (placeForAccount (some s) known').weaken (fun own => (List.forall_mem_cons.mp own).2) fun _ _ _ h => h

theorem placeForDeclAccount {init : DeclRef} {cond step : Option ExprRef}
    (known : ∀ s ∈ [init.plain] ++ (optionSlots cond ++ optionSlots step), Known given a s) :
    Account given .does a (placeForDecl scope init cond step)
      ([init.plain] ++ (optionSlots cond ++ optionSlots step)) fun s b => b.Has (s.handle.as (.role .loop)) := by
  have known := List.forall_mem_append.mp known
  unfold placeForDecl
  refine .bind (declStmtAccount known.1) fun s b extended own has => .withOwn own ?_
  exact placeForFreshAccount has (extended.keepsEach known.2)

theorem placeForExprAccount {init : ExprRef} {cond step : Option ExprRef}
    (known : ∀ s ∈ [init.plain] ++ (optionSlots cond ++ optionSlots step), Known given a s) :
    Account given .does a (placeForExpr scope init cond step)
      ([init.plain] ++ (optionSlots cond ++ optionSlots step)) fun s b => b.Has (s.handle.as (.role .loop)) := by
  have known := List.forall_mem_append.mp known
  unfold placeForExpr
  refine .check (ownChecks init) fun own => .withOwn own ?_
  exact .bind (exprStmtAccount own known.1 rfl) fun s b extended _ has =>
    placeForFreshAccount has (extended.keepsEach known.2)

theorem placeForRangeAccount {decl : DeclRef} {range : ExprRef}
    (known : ∀ s ∈ [decl.plain, range.plain], Known given a s) :
    Account given .does a (placeForRange scope decl range) [decl.plain, range.plain]
      fun s b => b.Has (s.handle.as (.role .loop)) := by
  unfold placeForRange
  refine .check (requireChecks _) fun language => ?_
  refine .check (ownChecks decl) fun own₁ => ?_
  refine .check (ownChecks range) fun own₂ => ?_
  exact placeOverBody (fun _ => rfl) (List.forall_mem_append.mpr ⟨own₁, own₂⟩) known (fun _ => trivial)
    (fun _ => List.forall_mem_singleton.mpr language) (fun _ => rfl) fun _ _ _ _ has => has

theorem placeTryAccount :
    Account given .does a (placeTry scope) [] fun s b => b.Has (s.handle.as (.role .tryCatch)) := by
  unfold placeTry
  refine .check (requireChecks _) fun language => ?_
  exact placeOverBody (fun _ => rfl) nofun nofun (fun _ => rfl)
    (fun _ => List.forall_mem_singleton.mpr language) (fun _ => rfl) fun _ _ _ _ has => has

theorem placeBlockAccount : Account given .does a (placeBlock scope) [] fun p b => b.Has p.slot := by
  unfold placeBlock
  refine .bind .newBody fun body b extended _ has => ?_
  have own : ∀ s ∈ [body.as (.place .function)], s.Own b := List.forall_mem_singleton.mpr has.own
  have placed : Account given .does b (placeStmt scope (.block body)) [] fun s b => b.Has s.plain :=
    (placeStmtAccount (n := .block body) own (List.forall_mem_singleton.mpr (.has has)) trivial nofun rfl).forget
  exact placed.discard fun c later => later.keepsHas has

theorem placeReturnAccount {value : Option ExprRef} (known : ∀ s ∈ optionSlots value, Known given a s) :
    Account given .does a (placeReturn scope value) (optionSlots value) fun s b => b.Has s.plain := by
  unfold placeReturn
  refine .check (ownOptionChecks value) fun own => ?_
  exact placeStmtAccount (n := .returnValue value) own known trivial nofun rfl

theorem placeThrowAccount {value : Option ExprRef} (known : ∀ s ∈ optionSlots value, Known given a s) :
    Account given .does a (placeThrow scope value) (optionSlots value) fun s b => b.Has s.plain := by
  unfold placeThrow
  refine .check (requireChecks _) fun language => ?_
  refine .check (ownOptionChecks value) fun own => ?_
  exact placeStmtAccount (n := .throwValue value) own known trivial (List.forall_mem_singleton.mpr language) rfl

theorem placeLabeledExprAccount {name : String} {x : ExprRef} (known : ∀ s ∈ [x.plain], Known given a s) :
    Account given .does a (placeLabeledExpr scope name x) [x.plain] fun s b => b.Has s.plain := by
  unfold placeLabeledExpr
  refine .check (ownChecks x) fun own => ?_
  have stored : Account given .makes a (alloc .stmt (.expr x)) [x.plain] fun s b => b.Has (s.as .expression) :=
    exprStmtAccount own known rfl
  refine .bindFirst stored fun inner b _ has => ?_
  have placed : Account given .does b (placeStmt scope (.label name (some inner))) [inner.as .expression]
      fun s b => b.Has s.plain :=
    placeStmtAccount (List.forall_mem_singleton.mpr has.own) (List.forall_mem_singleton.mpr (.has has)) trivial
      nofun rfl
  exact placed.forget

theorem placeSwitchAccount {init : Option DeclRef} {cond : ExprRef}
    (known : ∀ s ∈ cond.plain :: optionSlots init, Known given a s) :
    Account given .does a (placeSwitch scope init cond) (cond.plain :: optionSlots init)
      fun s b => b.Has (s.handle.as (.role .switch)) := by
  unfold placeSwitch
  refine .check (requireIfChecks ..) fun language => ?_
  refine .check (ownOptionChecks init) fun own₂ => ?_
  refine .check (ownChecks cond) fun own₁ => ?_
  have slots : (StmtNode.switch ⟨init, cond, []⟩).slots = cond.plain :: optionSlots init := List.append_nil _
  have placed : Account given .does a (placeStmt scope (.switch ⟨init, cond, []⟩)) (cond.plain :: optionSlots init)
      fun s b => b.Has (s.as (.role .switch)) := by
    rw [← slots] at known ⊢
    refine placeStmtAccount ?_ known rfl (usedIfAllowed language) rfl
    rw [slots]
    exact List.forall_mem_append.mpr ⟨own₁, own₂⟩
  exact placed.map fun _ _ _ has => has

theorem placeUsingNamespaceAccount (name : QualName) :
    Account given .does a (placeUsingNamespace scope name) [] fun s b => b.Has s.plain := by
  unfold placeUsingNamespace
  exact .check (requireChecks _) fun language =>
    placeBareAccount rfl trivial (List.forall_mem_singleton.mpr language)

theorem putFreshExpr {x : ExprRef} (has : a.Has x.plain) :
    Account given .does a (placeExpr scope x) [] fun s b => b.Has s.plain :=
  (placeExprAccount (List.forall_mem_singleton.mpr (.has has))).forget

theorem placeAssignAccount {lhs rhs : ExprRef} (known : ∀ s ∈ [lhs.plain, rhs.plain], Known given a s) :
    Account given .does a (placeAssign scope lhs rhs) [lhs.plain, rhs.plain] fun s b => b.Has s.plain := by
  unfold placeAssign
  exact .bindFirst (binaryExprAccount known) fun x b _ has => putFreshExpr has

theorem placeCallAccount {callee : ExprRef} {args : List ExprRef}
    (known : ∀ s ∈ callee.plain :: plainSlots args, Known given a s) :
    Account given .does a (placeCall scope callee args) (callee.plain :: plainSlots args)
      fun s b => b.Has s.plain := by
  unfold placeCall
  exact .bindFirst (callExprAccount known) fun x b _ has => putFreshExpr has

theorem placeDeleteAccount {x : ExprRef} {array : Bool} (known : ∀ s ∈ [x.plain], Known given a s) :
    Account given .does a (placeDelete scope x array) [x.plain] fun s b => b.Has s.plain := by
  unfold placeDelete
  exact .bindFirst (deleteExprAccount known) fun x b _ has => putFreshExpr has

theorem placeNamedCallAccount {callee : String} (args : List ExprRef)
    (known : ∀ s ∈ plainSlots args, Known given a s) :
    Account given .does a (placeNamedCall scope callee args) (plainSlots args) fun s b => b.Has s.plain := by
  unfold placeNamedCall
  refine .bind (rawExprAccount callee) fun f b extended _ has => ?_
  exact (placeCallAccount (List.forall_mem_cons.mpr ⟨.has has, extended.keepsEach known⟩)).weaken
    (fun own => (List.forall_mem_cons.mp own).2) fun _ _ _ h => h

theorem runPushEntry (entry : Entry) {n : ScopeNode} (own : entry.ref.arena = a.number)
    (here : a.node scope = .ok n) :
    (pushEntry scope entry).run a = .ok () (a.replace scope { n with entries := n.entries ++ [entry] }) := by
  have passed : (ownEntry entry).run a = .ok () a := by
    cases entry <;> exact runOwn own
  unfold pushEntry
  rw [EStateM.run_bind, passed]
  dsimp only
  rw [EStateM.run_bind, runRead, here]
  rfl

theorem refusedPushEntry (entry : Entry) {cause : Misuse} (own : entry.ref.arena = a.number)
    (missing : a.node scope = .error cause) : (pushEntry scope entry).run a = .error cause a := by
  have passed : (ownEntry entry).run a = .ok () a := by
    cases entry <;> exact runOwn own
  unfold pushEntry
  rw [EStateM.run_bind, passed]
  dsimp only
  rw [EStateM.run_bind, runRead, missing]

theorem runPushDeclStmt {d : DeclRef} {n : ScopeNode} (own : d.arena = a.number) (here : a.node scope = .ok n) :
    ∃ b, (pushDeclStmt scope d).run a = .ok d b ∧ b.decls = a.decls := by
  have later : (a.push .stmt (.decl d)).node scope = .ok n := Arena.nodePushKeeps (c := .stmt) _ here
  have pushed := runPushEntry (.stmt (a.nextHandle .stmt)) (by simp [Entry.ref, Handle.ref, Arena.nextHandle]) later
  unfold pushDeclStmt declStmt
  rw [EStateM.run_bind, EStateM.run_bind, runOwn own]
  dsimp only
  rw [runAlloc]
  dsimp only
  rw [EStateM.run_bind, pushed]
  exact ⟨_, rfl, rfl⟩

theorem runDefVar {name : QualName} {ty : TypeRef} {n : ScopeNode} (own : ty.arena = a.number)
    (here : a.node scope = .ok n) : ∃ d b, (defVar scope name ty none).run a = .ok d b := by
  have later : (a.push .decl (.var ⟨name, ty, none, .plain, .none⟩)).node scope = .ok n :=
    Arena.nodePushKeeps (c := .decl) _ here
  have same : (a.nextHandle .decl).arena = (a.push .decl (.var ⟨name, ty, none, .plain, .none⟩)).number := by
    simp [Arena.nextHandle]
  obtain ⟨b, placed, _⟩ := runPushDeclStmt same later
  refine ⟨a.nextHandle .decl, b, ?_⟩
  unfold defVar varDecl newVar
  rw [EStateM.run_bind, EStateM.run_bind, runOwn own]
  exact placed

theorem requestAccount (t : Table) (key : t.Key) (bare : (t.interning.node key).slots = [])
    (allowed : ∀ f ∈ (t.interning.node key).features, a.dialect = f.dialect) :
    Account given .does a (t.request key) [] fun ty b => Known given b ty.plain := by
  unfold Account
  rw [Table.runRequest]
  cases found : (t.entries a).lookup key with
  | some ty => exact ⟨.refl, nofun, Table.recordedKnown found⟩
  | none => exact ⟨.single (.intern t key found (by simp [bare]) allowed), nofun, .has (t.hasExtended key)⟩

theorem placeVarAccount {name : QualName} {ty : TypeRef} (known : Known given a ty.plain) :
    Account given .does a (defVar scope name ty none) [] fun d b => b.Has d.plain :=
  (defVarAccount (List.forall_mem_singleton.mpr known)).forget

theorem requestThenPlace (t : Table) (key : t.Key) {name : QualName} (bare : (t.interning.node key).slots = [])
    (allowed : ∀ f ∈ (t.interning.node key).features, a.dialect = f.dialect)
    (present : ∃ n, a.node scope = .ok n) :
    Account given .does a (t.request key >>= fun ty => defVar scope name ty none) [] fun d b => b.Has d.plain := by
  -- the type is recorded before the variable is placed, and from then on nothing can be refused
  cases found : (t.entries a).lookup key with
  | some ty =>
    have account : Account given .does a (defVar scope name ty none) [] fun d b => b.Has d.plain :=
      placeVarAccount (Table.recordedKnown found)
    unfold Account at account ⊢
    rw [EStateM.run_bind, Table.runRequest, found]
    exact account
  | none =>
    have requested : Account given .does a (t.request key) [] fun ty b => b.Has ty.plain := by
      unfold Account
      rw [Table.runRequest, found]
      exact ⟨.single (.intern t key found (by simp [bare]) allowed), nofun, t.hasExtended key⟩
    refine requested.bindSure fun ty b changed _ has => ⟨placeVarAccount (.has has), ?_⟩
    obtain ⟨n, here⟩ := changed.keepsPresent present
    exact runDefVar has.own here

theorem placeVaListAccount {name : QualName} (present : ∃ n, a.node scope = .ok n) :
    Account given .does a (placeVaList scope name) [] fun d b => b.Has d.plain :=
  requestThenPlace .raw "va_list" rfl nofun present

theorem placeVaListLate {name : QualName} :
    LateAccount given a (placeVaList scope name) [] fun d b => b.Has d.plain :=
  (requestAccount .raw "va_list" rfl nofun).bindLate fun _ _ _ known => placeVarAccount known

theorem modifyIfAccount {s : Typed .ifElse} {f : IfStmt → IfStmt} {args : List Slot}
    (own : ∀ t ∈ args, t.Own a)
    (grown : ∀ data, a.node s.handle = .ok (.ifElse data) →
      Grown given a (c := .stmt) (.ifElse data) (.ifElse (f data))) :
    Account given .does a (modifyIf s f) (s.handle.as (.role .ifElse) :: args) fun _ _ => True := by
  unfold modifyIf
  refine .read fun n here => ?_
  cases n with
  | ifElse data =>
    exact .update here (grown data here) (List.forall_mem_cons.mpr ⟨nodeOwn here, own⟩) fun _ _ => trivial
  | _ => exact .throw

theorem addElseIfAccount {s : Typed .ifElse} {init : Option DeclRef} {cond : ExprRef}
    (known : ∀ t ∈ cond.plain :: optionSlots init, Known given a t) :
    Account given .does a (addElseIf s init cond) (s.handle.as (.role .ifElse) :: cond.plain :: optionSlots init)
      fun p b => Known given b p.slot := by
  unfold addElseIf
  refine .check (requireIfChecks ..) fun language => ?_
  refine .check (ownOptionChecks init) fun own₂ => ?_
  refine .check (ownChecks cond) fun own₁ => ?_
  refine .bind .newBody fun body b extended _ has => ?_
  have own : ∀ t ∈ cond.plain :: optionSlots init, t.Own b :=
    fun t mem => extended.keepsOwn.mpr (List.forall_mem_append.mpr ⟨own₁, own₂⟩ t mem)
  refine .map (modifyIfAccount own fun data here => ⟨.elseIf data ⟨init, cond, body⟩, ?_, ?_⟩)
    fun _ _ later _ => .has (later.keepsHas has)
  · intro t mem
    simp only [Node.slots, StmtNode.slots, List.flatMap_append, List.flatMap_cons, List.flatMap_nil,
      List.append_nil, List.mem_append, List.mem_cons] at mem ⊢
    have new : t = cond.plain ∨ t ∈ optionSlots init → t.Own b ∧ Known given b t :=
      fun new => ⟨own t (List.mem_cons.mpr new), extended.keepsKnown (known t (List.mem_cons.mpr new))⟩
    have fresh : t = body.as (.place .function) → t.Own b ∧ Known given b t := by
      rintro rfl
      exact ⟨has.own, .has has⟩
    grind
  · intro f mem
    simp only [Node.features, StmtNode.features, List.any_append, List.any_cons, List.any_nil, Bool.or_false,
      List.mem_append] at mem ⊢
    cases used : init.isSome with
    | false => exact .inl (by simpa [used] using mem)
    | true =>
      rcases mem with old | new
      · exact .inl (.inl old)
      · rw [used, Bool.or_true] at new
        cases List.mem_singleton.mp new
        exact .inr (extended.dialect.trans (language used))

theorem elseBranchAccount {s : Typed .ifElse} :
    Account given .does a (elseBranch s) [s.handle.as (.role .ifElse)] fun p b => Known given b p.slot := by
  unfold elseBranch
  refine .read fun n here => ?_
  cases n with
  | ifElse data =>
    dsimp only
    cases filled : data.otherwise with
    | some scope =>
      refine .pure (foundOwn here) (.stored (.node (Arena.nodeIff.mp here).2 ?_))
      simp [Node.slots, StmtNode.slots, filled, Place.slot]
    | none =>
      refine .bind .newBody fun body b extended _ has => ?_
      refine .map (modifyIfAccount (List.forall_mem_nil _) fun d again => ?_)
        fun _ _ later _ => .has (later.keepsHas has)
      cases (extended.keepsNode here).symm.trans again
      refine ⟨.otherwise data body filled, ?_, fun f => .inl⟩
      intro t mem
      simp only [Node.slots, StmtNode.slots, filled, Option.toList_some, Option.toList_none, List.map_cons,
        List.map_nil, List.append_nil] at mem ⊢
      rcases List.mem_append.mp mem with old | new
      · exact .inl old
      · cases List.mem_singleton.mp new
        exact .inr ⟨has.own, .has has⟩
  | _ => exact .throw

theorem addCaseAccount {s : Typed .switch} {value : Option ExprRef} {fallthrough : Bool}
    (known : ∀ t ∈ optionSlots value, Known given a t) :
    Account given .does a (addCase s value fallthrough) (s.handle.as (.role .switch) :: optionSlots value)
      fun l b => b.Has (l.handle.as (.role .caseLabel)) := by
  unfold addCase
  refine .check (ownOptionChecks value) fun own => ?_
  refine .bind .newBody fun body b extended _ has => ?_
  have own : ∀ t ∈ optionSlots value, t.Own b := fun t mem => extended.keepsOwn.mpr (own t mem)
  have stored : Account given .makes b (alloc .stmt (.caseLabel ⟨value, body, fallthrough⟩))
      (body.as (.place .function) :: optionSlots value) fun l b => b.Has (l.as (.role .caseLabel)) :=
    .store (c := .stmt) (List.forall_mem_cons.mpr ⟨has.own, own⟩)
      (List.forall_mem_cons.mpr ⟨.has has, extended.keepsEach known⟩) trivial nofun rfl rfl
  refine .bind stored fun label c extended own hasLabel => ?_
  refine .read fun n here => ?_
  cases n with
  | switch data =>
    refine .updateGive here ⟨.caseLabel data label, ?_, fun f => .inl⟩
      (List.forall_mem_cons.mpr ⟨nodeOwn here, (List.forall_mem_cons.mp own).2⟩)
      fun _ later => later.keepsHas hasLabel
    intro t mem
    simp only [Node.slots, StmtNode.slots, List.map_append, List.map_cons, List.map_nil,
      ← List.append_assoc] at mem ⊢
    rcases List.mem_append.mp mem with old | new
    · exact .inl old
    · cases List.mem_singleton.mp new
      exact .inr ⟨hasLabel.own, .has hasLabel⟩
  | _ => exact .throwBind

theorem addHandlerAccount {s : Typed .tryCatch} {decl : Option DeclRef}
    (known : ∀ t ∈ optionSlots decl, Known given a t) :
    Account given .does a (addHandler s decl) (s.handle.as (.role .tryCatch) :: optionSlots decl)
      fun p b => Known given b p.slot := by
  unfold addHandler
  refine .check (ownOptionChecks decl) fun own => ?_
  refine .bind .newBody fun body b extended _ has => ?_
  have own : ∀ t ∈ optionSlots decl, t.Own b := fun t mem => extended.keepsOwn.mpr (own t mem)
  refine .read fun n here => ?_
  cases n with
  | tryCatch data =>
    refine .updateGive here ⟨.handler data ⟨decl, body⟩, ?_, fun f => .inl⟩
      (List.forall_mem_cons.mpr ⟨nodeOwn here, own⟩) fun _ later => .has (later.keepsHas has)
    intro t mem
    simp only [Node.slots, StmtNode.slots, List.flatMap_append, List.flatMap_cons, List.flatMap_nil,
      List.append_nil, ← List.cons_append] at mem ⊢
    rcases List.mem_append.mp mem with old | new
    · exact .inl old
    · rcases List.mem_cons.mp new with rfl | new
      · exact .inr ⟨has.own, .has has⟩
      · exact .inr ⟨own t new, extended.keepsKnown (known t new)⟩
  | _ => exact .throwBind

end CSource
