import CSource.Proofs.Introductions
import CSource.Proofs.Lifecycle
import CSource.Proofs.Persistence
import CSource.Proofs.Tags

/-!
The names of declarations. What a declaration wraps is older than the declaration, so whoever follows the wrapped
declarations comes to one that has a name of its own. The name is read from what is constant, so it stays, and it is
the one word for the declaration in all texts that refer to it.
-/

namespace CSource

open Build Relation Pieces Render

def Arena.Wraps (a : Arena) (d inner : DeclRef) : Prop := ∃ n, a.node d = .ok n ∧ n.wrapped? = some inner

/-- What name a declaration has, by rules that are applied as often as it takes. -/
inductive Arena.NameOf (a : Arena) : DeclRef → QualName → Prop where
  | raw {d : DeclRef} {text : String} (here : a.node d = .ok (.raw text)) : NameOf a d (.ofString text)
  | var {d : DeclRef} {data : VarDecl} (here : a.node d = .ok (.var data)) : NameOf a d data.name
  | function {d : DeclRef} {data : FuncDecl} (here : a.node d = .ok (.function data)) : NameOf a d data.name
  | wrapped {d inner : DeclRef} {name : QualName} (wraps : a.Wraps d inner) (inside : NameOf a inner name) :
      NameOf a d name
  | tag {d : DeclRef} {n : DeclNode} {t : Tag} {name : QualName} (here : a.node d = .ok n)
      (introduces : n.tag? = some t) (named : a.tagName t.ty = .ok name) : NameOf a d name

namespace Arena

variable {a b : Arena} {d inner : DeclRef} {name : QualName}

theorem nameWrapped (depth : Nat) {n : DeclNode} (here : a.node d = .ok n) (wraps : n.wrapped? = some inner) :
    a.declNameWithin (depth + 1) d = a.declNameWithin depth inner := by
  rw [declNameWithin, here]
  cases n <;> try contradiction
  all_goals
    cases wraps
    rfl

theorem nameTagged (depth : Nat) {n : DeclNode} {t : Tag} (here : a.node d = .ok n) (introduces : n.tag? = some t) :
    a.declNameWithin (depth + 1) d = a.tagName t.ty := by
  rw [declNameWithin, here]
  cases n <;> try contradiction
  all_goals
    cases introduces
    rfl

theorem nameOfWithin {depth : Nat} (named : a.declNameWithin depth d = .ok name) : a.NameOf d name := by
  induction depth generalizing d with
  | zero => contradiction
  | succ depth ih =>
    cases here : a.node d with
    | error cause =>
      rw [declNameWithin, here] at named
      contradiction
    | ok n =>
      cases n with
      | raw | var | function =>
        rw [declNameWithin, here] at named
        cases named
        first | exact .raw here | exact .var here | exact .function here
      | splitForward | template =>
        rw [nameWrapped depth here rfl] at named
        exact .wrapped ⟨_, here, rfl⟩ (ih named)
      | aggregate | enumeration | typeDef | usingType =>
        rw [nameTagged depth here rfl] at named
        exact .tag here rfl named

theorem NameOf.declName (named : a.NameOf d name) : a.declName d = .ok name := by
  induction named with
  | raw here | var here | function here =>
    rw [Arena.declName, declNameWithin, here]
    rfl
  | wrapped wraps inside ih =>
    obtain ⟨n, here, wraps⟩ := wraps
    exact nameBounded ((nameWrapped _ here wraps).trans ih)
  | tag here introduces named =>
    exact (nameTagged _ here introduces).trans named

/-- The number of declarations is no bound on what can be named. -/
theorem declNameIff : a.declName d = .ok name ↔ a.NameOf d name := ⟨nameOfWithin, NameOf.declName⟩

theorem tagNameLater (precedes : a.Precedes b) {ty : TypeRef} (named : a.tagName ty = .ok name) :
    b.tagName ty = .ok name := by
  unfold tagName at named ⊢
  cases found : a.node ty with
  | error cause =>
    rw [found] at named
    contradiction
  | ok n =>
    obtain ⟨m, now, follows⟩ := precedes.node found
    rw [found] at named
    rw [now]
    cases follows with
    | same => exact named
    | aggregate follows | enumeration follows =>
      rw [← named]
      exact congrArg Except.ok follows.name

theorem wrapsLater (precedes : a.Precedes b) (wraps : a.Wraps d inner) : b.Wraps d inner := by
  obtain ⟨n, here, wraps⟩ := wraps
  obtain ⟨m, now, follows⟩ := precedes.node here
  cases follows with
  | same => exact ⟨_, now, wraps⟩
  | var | function => contradiction

theorem NameOf.later (precedes : a.Precedes b) (named : a.NameOf d name) : b.NameOf d name := by
  induction named with
  | raw here =>
    obtain ⟨m, now, follows⟩ := precedes.node here
    cases follows
    exact .raw now
  | var here =>
    obtain ⟨m, now, follows⟩ := precedes.node here
    cases follows with
    | same => exact .var now
    | var follows => exact follows.name ▸ .var now
  | function here =>
    obtain ⟨m, now, follows⟩ := precedes.node here
    cases follows with
    | same => exact .function now
    | function follows => exact follows.name ▸ .function now
  | wrapped wraps inside ih => exact .wrapped (wrapsLater precedes wraps) ih
  | tag here introduces named =>
    obtain ⟨m, now, follows⟩ := precedes.node here
    cases follows with
    | same => exact .tag now introduces (tagNameLater precedes named)
    | var | function => contradiction

end Arena

def ArgText (a : Arena) (args : List TemplateArg) (text : String) : Prop :=
  ∃ texts, List.Forall₂ (fun arg t => a.render arg.ref = .ok t) args texts ∧ text = ",".intercalate texts

def VarDecl.mark (data : VarDecl) : String := if data.quals.isRestrict then "restrict " else ""

/-- The declaration has the name of the variable, whatever it is, between pieces that do not depend on it. -/
def VarDecl.NamedBetween (data : VarDecl) (a : Arena) (before after : Pieces) : Prop :=
  ∀ name : QualName, name.isBlank = false →
    Render.var a { data with name } = before ++ .code (data.mark ++ name.text) :: after

/-- The name stands for the declaration in all texts that refer to it, and in the declaration of a variable. Comments
that are attached to what is written stand around it. -/
structure Arena.ShowsName (a : Arena) (d : DeclRef) (name : QualName) : Prop where
  named : a.declName d = .ok name
  exprVar : ∀ e : ExprRef, a.node e = .ok (.var d) → a.render e.ref = .ok (a.commented e.ref name.text)
  exprHead : ∀ (e : ExprRef) (args : List TemplateArg), a.node e = .ok (.instantiation d args) → ∀ text,
    a.render e.ref = .ok text ↔
      ∃ inner, ArgText a args inner ∧ text = a.commented e.ref (name.text ++ "<" ++ inner ++ ">")
  typeHead : ∀ (ty : TypeRef) (args : List TemplateArg), a.node ty = .ok (.instantiation d args) → ∀ text,
    a.render ty.ref = .ok text ↔
      ∃ inner, ArgText a args inner ∧ text = a.commented ty.ref (name.text ++ "<" ++ inner ++ ">")
  typeNamed : a.dialect.isCxx = true → ∀ ty : TypeRef, a.node ty = .ok (.named d) →
    a.render ty.ref = .ok (a.commented ty.ref name.text)
  declared : ∀ data, a.node d = .ok (.var data) → data.name = name ∧ (name.isBlank = false →
    ∃ before after, data.NamedBetween a before after ∧ ∀ text, a.render d.ref = .ok text ↔
      ∃ head tail, a.Spells before head ∧ a.Spells after tail ∧
        text = a.commented d.ref (head ++ (data.mark ++ name.text) ++ tail))

section Texts

variable {a : Arena} {d : DeclRef} {name : QualName} {text : String}

theorem spellsDeclName (named : a.declName d = .ok name) :
    a.Spells (ofName (a.declName d)) text ↔ text = name.text := by
  rw [named]
  exact Arena.spellsOfText

theorem spellsInstantiation (named : a.declName d = .ok name) {args : List TemplateArg} :
    a.Spells (instantiation a d args) text ↔
      ∃ inner, ArgText a args inner ∧ text = name.text ++ "<" ++ inner ++ ">" := by
  have inside (inner : String) : a.Spells (templateArgs args) inner ↔ ArgText a args inner := by
    simp only [templateArgs, ArgText, Arena.spellsSeparated, List.forall₂_map_left_iff]
    have one (arg : TemplateArg) (t : String) : a.Spells [.child arg.ref] t ↔ a.render arg.ref = .ok t := by
      simp [Arena.spellsChild, Arena.spellsNil]
    simp only [one]
  simp only [instantiation, spellsDeclName named, Arena.spellsAppend, Arena.spellsCode, Arena.spellsOfText, inside]
  constructor
  · rintro ⟨_, _, ⟨_, _, rfl, ⟨inner, args, rfl⟩, rfl⟩, rfl, rfl⟩
    exact ⟨inner, args, by simp [String.append_assoc]⟩
  · rintro ⟨inner, args, rfl⟩
    exact ⟨_, _, ⟨_, _, rfl, ⟨inner, args, rfl⟩, rfl⟩, rfl, by simp [String.append_assoc]⟩

theorem spellsNamedType (nameable : a.Nameable) (named : a.declName d = .ok name) (cxx : a.dialect.isCxx = true) :
    a.Spells (Render.namedType a d) text ↔ text = name.text := by
  obtain ⟨n, here⟩ : ∃ n, a.node d = .ok n := by
    cases here : a.node d with
    | ok n => exact ⟨n, rfl⟩
    | error cause =>
      rw [Arena.declName, Arena.declNameWithin, here] at named
      contradiction
  have pieces : Render.namedType a d = ofName (a.declName d) := by
    unfold Render.namedType
    rw [here]
    cases n with
    | aggregate ty forward =>
      have tag := nameable.tagged .decl d.index _ (Arena.nodeIff.mp here).2 _ rfl
      obtain ⟨data, found⟩ := Arena.Has.aggregate tag
      show ofExcept (a.aggregateAt ty >>= _) = _
      rw [aggregateAtIff.mpr found]
      simp only [cxx]
      rfl
    | enumeration ty forward =>
      simp only [cxx]
      rfl
    | _ => rfl
  rw [pieces, spellsDeclName named]

theorem QualName.textFilled {name : QualName} (filled : name.isBlank = false) : name.text ≠ "" := by
  obtain ⟨segments⟩ := name
  match segments with
  | [] => contradiction
  | [segment] => simpa [QualName.isBlank, QualName.text] using filled
  | first :: second :: rest => simp [QualName.text]

theorem declaratorBetween {ty : TypeRef} {n : TypeNode} (here : a.node ty = .ok n)
    (targets : ∀ pointee, n = .pointer pointee → ∃ m, a.node pointee = .ok m) :
    ∃ before after, ∀ word, word ≠ "" → declarator a ty word = before ++ .code word :: after := by
  have behind (k : TypeRef) (word : String) (filled : word ≠ "") :
      plainDeclarator k word = [.child k.ref, .code " "] ++ [.code word] := by
    simp [plainDeclarator, nameSuffix, filled]
  unfold declarator
  simp only [here, bind, Except.bind]
  cases n with
  | function ret ps variadic =>
    refine ⟨[.child ret.ref, .code " "], params ps variadic, fun word filled => ?_⟩
    simp [nameSuffix, filled]
  | pointer pointee =>
    obtain ⟨m, there⟩ := targets pointee rfl
    simp only [there]
    cases m with
    | function ret ps variadic => exact ⟨[.child ret.ref, .code "(*"], .code ")" :: params ps variadic, fun _ _ => rfl⟩
    | _ => exact ⟨_, [], behind ty⟩
  | array element sizes =>
    refine ⟨[.child element.ref, .code " "], arraySizes sizes, fun word filled => ?_⟩
    simp [behind element word filled]
  | _ => exact ⟨_, [], behind ty⟩

theorem VarDecl.namedBetween (layered : a.Layered) {data : VarDecl} (here : a.node d = .ok (.var data)) :
    ∃ before after, data.NamedBetween a before after := by
  have stored {c e : Category} {h : Handle c} {n : Node c} {k : Handle e} (found : a.node h = .ok n)
      (mem : k.plain ∈ Node.slots c n) : ∃ m, a.node k = .ok m :=
    (layered.stored _ (.node (Arena.nodeIff.mp found).2 mem)).node
  obtain ⟨n, found⟩ := stored (k := data.ty) here (List.mem_cons_self ..)
  obtain ⟨before, after, between⟩ := declaratorBetween found fun pointee same => by
    subst same
    exact stored found (List.mem_singleton_self _)
  refine ⟨flagged [(data.quals.isConst, "const "), (data.quals.isExternal, "extern "), (data.quals.isStatic, "static "),
    (data.quals.isVolatile, "volatile "), (data.quals.isInline, "inline ")] ++ before,
    after ++ varShape data.shape ++ initializer data.init, fun name filled => ?_⟩
  have word : declaredName { data with name } = data.mark ++ name.text := by
    simp only [declaredName, filled, VarDecl.mark]
    cases data.quals.isRestrict <;> simp
  have written : data.mark ++ name.text ≠ "" := by simp [QualName.textFilled filled]
  rw [Render.var, word, between _ written]
  simp

theorem instantiationText (named : a.declName d = .ok name) {c : Category} {h : Handle c} {n : Node c}
    {args : List TemplateArg} (here : a.node h = .ok n) (inner : c ≠ .scope)
    (shape : Render.node a c n = instantiation a d args) : a.render h.ref = .ok text ↔
      ∃ inner, ArgText a args inner ∧ text = a.commented h.ref (name.text ++ "<" ++ inner ++ ">") := by
  rw [Arena.renderedAs here inner, shape]
  simp only [spellsInstantiation named]
  constructor
  · rintro ⟨_, ⟨inner, args, rfl⟩, rfl⟩
    exact ⟨inner, args, rfl⟩
  · rintro ⟨inner, args, rfl⟩
    exact ⟨_, ⟨inner, args, rfl⟩, rfl⟩

theorem declarationText (layered : a.Layered) {data : VarDecl} (here : a.node d = .ok (.var data))
    (filled : data.name.isBlank = false) :
    ∃ before after, data.NamedBetween a before after ∧ ∀ text, a.render d.ref = .ok text ↔
      ∃ head tail, a.Spells before head ∧ a.Spells after tail ∧
        text = a.commented d.ref (head ++ (data.mark ++ data.name.text) ++ tail) := by
  obtain ⟨before, after, between⟩ := data.namedBetween layered here
  refine ⟨before, after, between, fun text => ?_⟩
  have shape : Render.node a .decl (.var data) = before ++ .code (data.mark ++ data.name.text) :: after :=
    between data.name filled
  rw [Arena.renderedAs here nofun, shape]
  simp only [Arena.spellsAppend, Arena.spellsCode]
  constructor
  · rintro ⟨_, ⟨head, _, first, ⟨tail, last, rfl⟩, rfl⟩, rfl⟩
    exact ⟨head, tail, first, last, by simp [String.append_assoc]⟩
  · rintro ⟨head, tail, first, last, rfl⟩
    exact ⟨_, ⟨head, _, first, ⟨tail, last, rfl⟩, rfl⟩, by simp [String.append_assoc]⟩

theorem showsName (nameable : a.Nameable) (named : a.declName d = .ok name) : a.ShowsName d name where
  named := named
  exprVar e here := (Arena.renderedAs here nofun).mpr ⟨_, (spellsDeclName named).mpr rfl, rfl⟩
  exprHead e args here text := instantiationText named here nofun rfl
  typeHead ty args here text := instantiationText named here nofun rfl
  typeNamed cxx ty here := (Arena.renderedAs here nofun).mpr ⟨_, (spellsNamedType nameable named cxx).mpr rfl, rfl⟩
  declared data here := by
    cases Except.ok.inj ((Arena.NameOf.var here).declName.symm.trans named)
    exact ⟨rfl, declarationText nameable.toLayered here⟩

end Texts

/-- The calls that refer to a declaration make nodes that do. -/
structure Arena.RefersTo (a : Arena) (d : DeclRef) : Prop where
  exprVar : ∃ e b, (Call.expr (.var d)).perform.run a = .ok (.expr e) b ∧ b.node e = .ok (.var d)
  exprHead : ∀ args answer b, (Call.expr (.instantiation d args)).perform.run a = .ok answer b →
    ∃ e, answer = .expr e ∧ b.node e = .ok (.instantiation d args)
  typeHead : ∀ args answer b, (Call.type (.instantiation d args)).perform.run a = .ok answer b →
    ∃ ty, answer = .type ty ∧ b.node ty = .ok (.instantiation d args)
  typeNamed : ∃ ty b, (Call.type (.named d)).perform.run a = .ok (.type ty) b ∧ b.node ty = .ok (.named d)

section References

variable {a b : Arena} {d : DeclRef}

theorem instantiationStored {c : Category} {n : Node c} {args : List TemplateArg} {h : Handle c}
    (ran : (require .templateInstantiation >>= fun _ => own d >>= fun _ => ownArgs args >>= fun _ =>
      alloc c n).run a = .ok h b) : b.node h = .ok n := by
  obtain ⟨_, ran⟩ := Table.checkedOk (requireChecks _) ran
  obtain ⟨_, ran⟩ := Table.checkedOk (ownChecks d) ran
  obtain ⟨_, ran⟩ := Table.checkedOk (ownArgsChecks args) ran
  rw [runAlloc] at ran
  cases ran
  exact Arena.nodePushed

theorem refersTo (consed : a.Consed) (own : d.arena = a.number) : a.RefersTo d where
  exprVar := ⟨_, _, Table.mappedRun ((Table.passedRun (runOwn own)).trans (runAlloc ..)), Arena.nodePushed⟩
  exprHead args answer b ran := by
    obtain ⟨e, made, rfl⟩ := Table.mappedOk ran
    exact ⟨e, rfl, instantiationStored made⟩
  typeHead args answer b ran := by
    obtain ⟨ty, made, rfl⟩ := Table.mappedOk ran
    exact ⟨ty, rfl, instantiationStored made⟩
  typeNamed := by
    obtain ⟨ty, b, ran⟩ := requestMade Table.named d a
    exact ⟨ty, b, Table.callAdmitted (namedAdmits own) ran, requestNode consed (namedAdmits own) ran⟩

end References

section Worlds

variable {p : Policy} {w : World}

theorem World.Reachable.nameable (closed : p.foreign = false) (reachable : w.Reachable p) {n : Nat} {a : Arena}
    (here : w.session.arenas[n]? = some a) : a.Nameable where
  toLayered := reachable.layered closed n a here
  tagged := (reachable.tagged closed).arenas n a here

/-- As long as clients use no handle of another arena, what is wrapped is older all the way down, so every declaration
has a name; at all later times it has the same name, and all texts that refer to it show that name. -/
theorem declNamesStay (closed : p.foreign = false) (reachable : w.Reachable p) {n : Nat} {a : Arena}
    (here : w.session.arenas[n]? = some a) {d : DeclRef} (declared : a.Present d.ref) :
    (∀ k, ReflTransGen a.Wraps d k → ∀ inner, a.Wraps k inner → a.Present inner.ref ∧ inner.index < k.index) ∧
      ∃ name, a.NameOf d name ∧ ∀ v, World.Run p w v →
        ∃ b, v.session.arenas[n]? = some b ∧ b.RefersTo d ∧ b.ShowsName d name := by
  have nameable := reachable.nameable closed here
  constructor
  · intro k _ inner ⟨n, found, wraps⟩
    exact nameable.wrapped found wraps
  · obtain ⟨name, named⟩ := nameable.declName declared
    have rules := Arena.declNameIff.mp named
    refine ⟨name, rules, fun v run => ?_⟩
    obtain ⟨b, there, precedes⟩ := run.precedes reachable.sound here
    have later : v.Reachable p := reachable.trans run
    have same := (rules.later precedes).declName
    exact ⟨b, there, refersTo (later.consed n b there) (declared.own.trans precedes.number.symm),
      showsName (later.nameable closed there) same⟩

/-- A variable that two templates are wrapped around, and texts that refer to the outer one. -/
def World.wrapping : World :=
  (((((((empty.grow .cxx).act 0 (.type (.raw "int"))).act 0 (.decl (.var (.ofString "x") ⟨0, 1⟩ none))).act 0
    (.decl (.template [] ⟨0, 0⟩))).act 0 (.decl (.template [] ⟨0, 1⟩))).act 0 (.expr (.var ⟨0, 2⟩))).act 0
    (.type (.instantiation ⟨0, 2⟩ [.type ⟨0, 1⟩]))).act 0 (.type (.named ⟨0, 2⟩))

theorem World.wrappingReachable : wrapping.Reachable .strict := by
  refine .act (.act (.act (.act (.act (.act (.act (Reachable.start.grow .cxx) ?_) ?_) ?_) ?_) ?_) ?_) ?_
  all_goals exact allowsHeld (by decide) rfl (by decide)

theorem wrappedVariableNamed :
    ∃ a, World.wrapping.session.arenas[0]? = some a ∧ a.Wraps ⟨0, 2⟩ ⟨0, 1⟩ ∧ a.Wraps ⟨0, 1⟩ ⟨0, 0⟩ ∧
      a.render (⟨0, 0⟩ : ExprRef).ref = .ok "x" ∧ a.render (⟨0, 2⟩ : TypeRef).ref = .ok "x<int>" ∧
      a.render (⟨0, 3⟩ : TypeRef).ref = .ok "x" ∧ ∀ v, World.Run .strict World.wrapping v →
        ∃ b, v.session.arenas[0]? = some b ∧ b.RefersTo ⟨0, 2⟩ ∧ b.ShowsName ⟨0, 2⟩ (.ofString "x") := by
  obtain ⟨a, here⟩ : ∃ a, World.wrapping.session.arenas[0]? = some a := ⟨_, rfl⟩
  obtain ⟨outer, inner, named, present, texts⟩ : a.Wraps ⟨0, 2⟩ ⟨0, 1⟩ ∧ a.Wraps ⟨0, 1⟩ ⟨0, 0⟩ ∧
      a.declName ⟨0, 2⟩ = .ok (.ofString "x") ∧ a.Present (⟨0, 2⟩ : DeclRef).ref ∧
      a.render (⟨0, 0⟩ : ExprRef).ref = .ok "x" ∧ a.render (⟨0, 2⟩ : TypeRef).ref = .ok "x<int>" ∧
      a.render (⟨0, 3⟩ : TypeRef).ref = .ok "x" := by
    cases here
    exact ⟨⟨_, rfl, rfl⟩, ⟨_, rfl, rfl⟩, rfl, ⟨rfl, by decide⟩, rfl, rfl, rfl⟩
  obtain ⟨_, name, rules, stays⟩ := declNamesStay rfl World.wrappingReachable here present
  cases Except.ok.inj (rules.declName.symm.trans named)
  exact ⟨a, here, outer, inner, texts.1, texts.2.1, texts.2.2, stays⟩

end Worlds

end CSource
