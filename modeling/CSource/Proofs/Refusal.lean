import CSource.Proofs.Soundness

/-!
What a refused call leaves behind. Of almost every call it is nodes at the ends of the lists, where nothing points to,
and all that was built before is as it was. Two calls change something old before they come to the scope that they fill.
They are refused there only through a view whose arena has been exchanged, and then the change stays.
-/

namespace CSource

/-- The arena has at most grown at the ends of its lists, by nodes to which nothing has been added. For a scope this
means that it is empty. -/
structure Arena.Intact (a b : Arena) : Prop where
  number : b.number = a.number
  dialect : b.dialect = a.dialect
  comments : b.comments = a.comments
  interned : b.interned = a.interned
  nodes : ∀ (c : Category) (i : Nat) (n : Node c), (a.nodes c)[i]? = some n → (b.nodes c)[i]? = some n
  fresh : ∀ (c : Category) (i : Nat) (n : Node c), (a.nodes c).size ≤ i → (b.nodes c)[i]? = some n →
    Node.Initial c n

/-- No reference of the session is to a node of arena `n` behind those of `a`. -/
def Session.Unreferenced (σ : Session) (n : Nat) (a : Arena) : Prop :=
  ∀ (m : Nat) (c : Arena), σ.arenas[m]? = some c → ∀ s, c.Stores s →
    ∀ (k : Category) (i : Nat), (a.nodes k).size ≤ i → s.ref ≠ ⟨k, n, i⟩

variable {p : Policy} {given : Slot → Prop} {a b : Arena} {w : World} {n : Nat}

theorem Extends.intact (extended : Extends given a b) : a.Intact b := by
  induction extended with
  | refl =>
    refine ⟨rfl, rfl, rfl, rfl, fun _ _ _ => id, ?_⟩
    intro c i m outside found
    have inside := (Array.getElem?_eq_some_iff.mp found).1
    omega
  | push before m born ih =>
    refine ⟨by simpa using ih.number, by simpa using ih.dialect, by simpa using ih.comments,
      by simpa using ih.interned, fun d i k found => Arena.pushKeeps m (ih.nodes d i k found), ?_⟩
    intro d i k outside found
    exact Arena.pushForall (fun d i k found outside => ih.fresh d i k outside found) (fun _ => born.initial)
      d i k found outside

theorem Arena.Intact.refl (a : Arena) : a.Intact a :=
  have extended : Extends (fun _ => False) a a := .refl
  extended.intact

theorem World.Sound.unreferenced (sound : w.Sound p) (here : w.session.arenas[n]? = some a) :
    w.session.Unreferenced n a := by
  rintro m c found ⟨ref, shape⟩ stored k i outside rfl
  obtain ⟨d, there, node, present, _⟩ := (sound.stored m c found _ stored).1
  cases Option.some.inj (here.symm.trans there)
  have inside := (Array.getElem?_eq_some_iff.mp present).1
  exact absurd inside (Nat.not_lt.mpr outside)

section Hasty

open Build

variable {scope : ScopeRef} {f : FunctionRef} {name : QualName} {cause : Misuse}

theorem functionAtRefused {d : DeclRef} (refused : a.functionAt d = .error cause) : cause ≠ .foreignHandle .scope := by
  unfold Arena.functionAt at refused
  cases found : a.node d with
  | error other =>
    rw [found] at refused
    cases refused
    rcases Arena.nodeRefused found with ⟨_, rfl⟩ | ⟨_, rfl⟩ <;> simp
  | ok n =>
    rw [found] at refused
    cases n <;> cases refused <;> simp

theorem defineRefused (ran : (defineFunction scope f).run a = .error cause b) :
    (b = a ∧ cause ≠ .foreignHandle .scope) ∨
      ∃ data, a.node f.handle = .ok (.function data) ∧ data.lifecycle = .split ∧ data.defined = false ∧
        b = a.replace f.handle (.function { data with defined := true }) ∧ a.node scope = .error cause := by
  unfold defineFunction markDefined at ran
  rw [EStateM.run_bind, runOwns] at ran
  cases own : a.owns f.handle with
  | false =>
    rw [own] at ran
    cases ran
    exact .inl ⟨rfl, by simp⟩
  | true =>
    rw [own] at ran
    simp only [if_true, bind_assoc] at ran
    rw [EStateM.run_bind, runRead] at ran
    cases read : a.functionAt f.handle with
    | error cause =>
      rw [read] at ran
      cases ran
      exact .inl ⟨rfl, functionAtRefused read⟩
    | ok data =>
      rw [read] at ran
      have found := functionAtIff.mp read
      dsimp only at ran
      split at ran
      · rename_i splits
        split at ran
        · cases ran
          exact .inl ⟨rfl, by simp⟩
        · rename_i fresh
          have same : (a.replace f.handle (.function { data with defined := true })).node scope = a.node scope :=
            Arena.nodeReplaceOther (nodeOwn found) (by simp [Handle.ref])
          have listed : (Entry.decl f.handle).ref.arena =
              (a.replace f.handle (.function { data with defined := true })).number := by
            simpa [Entry.ref, Handle.ref] using nodeOwn found
          rw [EStateM.run_bind, runUpdate] at ran
          dsimp only at ran
          rw [Account.discardBind, EStateM.run_bind, pushDecl, EStateM.run_bind] at ran
          cases there : a.node scope with
          | ok n =>
            rw [runPushEntry _ listed (same.trans there)] at ran
            cases ran
          | error cause =>
            rw [refusedPushEntry _ listed (same.trans there)] at ran
            cases ran
            exact .inr ⟨data, found, splits, by simpa using fresh, rfl, rfl⟩
      · cases ran
        exact .inl ⟨rfl, by simp⟩

theorem refusedDefVar {ty : TypeRef} (own : ty.arena = a.number) (missing : a.node scope = .error cause) :
    ∃ b, (defVar scope name ty none).run a = .error cause b := by
  have later : ((a.push .decl (.var ⟨name, ty, none, .plain, .none⟩)).push .stmt (.decl (a.nextHandle .decl))).node
      scope = .error cause := by
    rw [Arena.nodePushOther (by simp [Handle.ref]), Arena.nodePushOther (by simp [Handle.ref]), missing]
  have pushed := refusedPushEntry (.stmt ((a.push .decl (.var ⟨name, ty, none, .plain, .none⟩)).nextHandle .stmt))
    (by simp [Entry.ref, Handle.ref, Arena.nextHandle]) later
  have same : (a.nextHandle .decl).arena = (a.push .decl (.var ⟨name, ty, none, .plain, .none⟩)).number := by
    simp [Arena.nextHandle]
  refine ⟨(a.push .decl (.var ⟨name, ty, none, .plain, .none⟩)).push .stmt (.decl (a.nextHandle .decl)), ?_⟩
  unfold defVar varDecl newVar
  rw [EStateM.run_bind, EStateM.run_bind, runOwn own]
  change (pushDeclStmt scope (a.nextHandle .decl)).run (a.push .decl (.var ⟨name, ty, none, .plain, .none⟩)) = _
  unfold pushDeclStmt declStmt
  rw [EStateM.run_bind, EStateM.run_bind, runOwn same]
  dsimp only
  rw [runAlloc]
  dsimp only
  rw [EStateM.run_bind, pushed]

theorem placeVarRefused {ty : TypeRef} (known : Known (fun _ => False) a ty.plain)
    (ran : (defVar scope name ty none).run a = .error cause b) : a.Intact b := by
  have account : Account (fun _ => False) .does a (defVar scope name ty none) [] fun d b => b.Has d.plain :=
    placeVarAccount known
  unfold Account at account
  rw [ran] at account
  exact account.intact

/-- The type is recorded first, if it is not there yet, and then nothing but nodes is stored. -/
theorem requestThenPlaceRefused (t : Table) (key : t.Key)
    (ran : (t.request key >>= fun ty => defVar scope name ty none).run a = .error cause b) :
    match (t.entries a).lookup key with
    | some _ => a.Intact b
    | none => a.node scope = .error cause ∧ (t.extend key a).Intact b := by
  rw [EStateM.run_bind, Table.runRequest] at ran
  cases listed : (t.entries a).lookup key with
  | some ty =>
    rw [listed] at ran
    exact placeVarRefused (Table.recordedKnown listed) ran
  | none =>
    rw [listed] at ran
    have has := t.hasExtended (a := a) key
    have ended : (defVar scope name (a.nextHandle .type) none).run (t.extend key a) = .error cause b := ran
    refine ⟨?_, placeVarRefused (.has has) ended⟩
    have same : (t.extend key a).node scope = a.node scope :=
      (t.nodeExtend key a scope).trans (Arena.nodePushOther (by simp [Handle.ref]))
    rw [← same]
    cases there : (t.extend key a).node scope with
    | ok n =>
      obtain ⟨d, c, placed⟩ : ∃ d c, (defVar scope name (a.nextHandle .type) none).run (t.extend key a) = .ok d c :=
        runDefVar has.own there
      cases placed.symm.trans ended
    | error other =>
      obtain ⟨c, refused⟩ : ∃ c, (defVar scope name (a.nextHandle .type) none).run (t.extend key a) = .error other c :=
        refusedDefVar has.own there
      cases refused.symm.trans ended
      rfl

theorem vaListRefused (ran : (placeVaList scope name).run a = .error cause b) :
    match (Table.raw.entries a).lookup "va_list" with
    | some _ => a.Intact b
    | none => a.node scope = .error cause ∧ (Table.raw.extend "va_list" a).Intact b :=
  requestThenPlaceRefused .raw "va_list" ran

theorem mappedRefused {α : Type} {g : α → Answer} {m : Build α} (ran : (g <$> m).run a = .error cause b) :
    m.run a = .error cause b := by
  rw [map_eq_pure_bind, EStateM.run_bind] at ran
  cases performed : m.run a with
  | error other c =>
    rw [performed] at ran
    cases ran
    rfl
  | ok x c =>
    rw [performed] at ran
    contradiction

end Hasty

/-- The call is refused for the scope that it fills, after it has changed something old. -/
def Call.strays (a : Arena) (cause : Misuse) : Call → Bool
  | putTopLevel _ _ (.defineFunction _) => cause == .foreignHandle .scope
  | putStmt _ _ (.vaList _) => cause == .foreignHandle .scope && ((Table.raw.entries a).lookup "va_list").isNone
  | _ => false

/-- What such a call leaves: a function that counts as defined, or a recorded type. -/
inductive Arena.Strayed (a : Arena) : Call → Arena → Prop where
  | marked {place : Place} {taken : place.kind = .topLevel} {f : FunctionRef} {data : FuncDecl}
      (found : a.node f.handle = .ok (.function data)) (splits : data.lifecycle = .split)
      (fresh : data.defined = false) :
      a.Strayed (.putTopLevel place taken (.defineFunction f))
        (a.replace f.handle (.function { data with defined := true }))
  | recorded {place : Place} {taken : place.kind.takesStatements = true} {name : QualName} {b : Arena}
      (fresh : (Table.raw.entries a).lookup "va_list" = none) (intact : (Table.raw.extend "va_list" a).Intact b) :
      a.Strayed (.putStmt place taken (.vaList name)) b

theorem Table.extendChanges (t : Table) (key : t.Key) (later : (t.extend key a).Intact b) : ¬a.Intact b := by
  intro intact
  have same : t.entries (t.extend key a) = t.entries a :=
    congrArg t.interning.entries (later.interned.symm.trans intact.interned)
  rw [entriesExtend] at same
  simpa using congrArg List.length same

theorem Arena.Strayed.changes {call : Call} (strayed : a.Strayed call b) : ¬a.Intact b := by
  cases strayed with
  | @marked _ _ f data found splits fresh =>
    intro intact
    have kept := intact.nodes .decl f.handle.index _ (Arena.nodeIff.mp found).2
    have now := (Arena.nodeIff.mp (Arena.replacedNode found (.function { data with defined := true }))).2
    have same : DeclNode.function data = .function { data with defined := true } :=
      Option.some.inj (kept.symm.trans now)
    have marked : data.defined = true := congrArg FuncDecl.defined (DeclNode.function.inj same)
    exact absurd marked (by simp [fresh])
  | recorded _ later => exact Table.raw.extendChanges "va_list" later

theorem Call.straysHasty {call : Call} {cause : Misuse} (strays : call.strays a cause = true) :
    call.isHasty = true := by
  cases call with
  | putTopLevel place taken change => cases change <;> first | rfl | contradiction
  | putStmt place taken change => cases change <;> first | rfl | contradiction
  | _ => contradiction

theorem Call.hastyRefused {call : Call} {cause : Misuse} (ran : call.perform.run a = .error cause b)
    (hasty : call.isHasty = true) :
    (a.Intact b ∧ call.strays a cause = false) ∨
      (a.Strayed call b ∧ call.strays a cause = (cause == .foreignHandle .scope) ∧
        ∃ scope, call.filled? = some scope ∧ a.node scope = .error cause) := by
  cases call with
  | putTopLevel place taken change =>
    cases change with
    | defineFunction f =>
      rcases defineRefused (mappedRefused ran) with ⟨rfl, early⟩ | ⟨data, found, splits, fresh, rfl, late⟩
      · exact .inl ⟨.refl _, beq_false_of_ne early⟩
      · exact .inr ⟨.marked found splits fresh, rfl, _, rfl, late⟩
    | _ => contradiction
  | putStmt place taken change =>
    cases change with
    | vaList name =>
      have refused := vaListRefused (mappedRefused ran)
      cases listed : (Table.raw.entries a).lookup "va_list" with
      | some ty =>
        rw [listed] at refused
        exact .inl ⟨refused, by simp [strays, listed]⟩
      | none =>
        rw [listed] at refused
        exact .inr ⟨.recorded listed refused.2, by simp [strays, listed], _, rfl, refused.1⟩
    | _ => contradiction
  | _ => contradiction

/-- A call that is refused, at any point of any run and with any handles, changes no arena but its own. If it does not
stray, all that this one held is as it was, and what the call has made is named by no reference. It strays only through
a view whose arena was exchanged for another, and then something old has changed. -/
theorem refusalsLeaveIntact {call : Call} {cause : Misuse} {after : Session} (reachable : w.Reachable p)
    (allowed : w.Allows p n call) (refused : w.session.step n call = some (.error cause, after)) :
    ∃ a b, w.session.arenas[n]? = some a ∧ after.arenas = w.session.arenas.setIfInBounds n b ∧
      w.session.Unreferenced n a ∧
      if call.strays a cause then
        (∃ scope, call.filled? = some scope ∧ scope.arena ≠ n) ∧ a.Strayed call b ∧ ¬a.Intact b
      else a.Intact b := by
  have sound := reachable.sound
  obtain ⟨a, b, here, rfl, ends⟩ := Session.stepCases refused
  refine ⟨a, b, here, rfl, sound.unreferenced here, ?_⟩
  have number := sound.numbered n a here
  cases hasty : call.isHasty with
  | false =>
    rw [if_neg fun strays => by simp [call.straysHasty strays] at hasty]
    exact (sound.refused allowed here ends (by simp [hasty])).intact
  | true =>
    rcases call.hastyRefused ends hasty with ⟨intact, calm⟩ | ⟨strayed, late, scope, fills, missing⟩
    · rwa [if_neg (by simp [calm])]
    · rcases Arena.nodeRefused missing with ⟨foreign, rfl⟩ | ⟨own, rfl⟩
      · rw [if_pos (by simp [late])]
        exact ⟨⟨scope, fills, number ▸ foreign⟩, strayed, strayed.changes⟩
      · rw [if_neg (by simp [late])]
        refine (sound.refused allowed here ends fun _ other filled => ?_).intact
        cases fills.symm.trans filled
        exact own

theorem topLevelTaken : PlaceKind.topLevel = .topLevel := rfl

/-- Two arenas, with a place in each and a function of the second that was declared in two halves. -/
def World.parted : World :=
  ((((empty.grow .cxx).grow .cxx).act 0 .newTopLevel).act 1 .newTopLevel |>.act 1 (.type (.raw "int"))).act 1
    (.putTopLevel ⟨.topLevel, ⟨1, 0⟩⟩ topLevelTaken (.function .split (.ofString "f") ⟨1, 1⟩ [] false))

theorem World.partedReachable : parted.Reachable ⟨false, false, true⟩ := by
  refine .act (.act (.act (.act ((Reachable.start.grow .cxx).grow .cxx) ?_) ?_) ?_) ?_
  all_goals exact allowsHeld (by decide) rfl (.inl rfl)

/-- The second half is to be put into the place of the first arena. -/
def misplacedDefinition : Call :=
  .putTopLevel ⟨.topLevel, ⟨0, 0⟩⟩ topLevelTaken (.defineFunction ⟨⟨1, 0⟩⟩)

theorem misplacedDefinitionStrays :
    (∃ v, World.parted.session.view 0 ⟨.topLevel, ⟨0, 0⟩⟩ = some (.ok v) ∧
      World.parted.session.step (v.exchange 1).arena misplacedDefinition =
        some (.error (.foreignHandle .scope), (World.parted.act 1 misplacedDefinition).session)) ∧
      ∃ a b, World.parted.session.arenas[1]? = some a ∧
        (World.parted.act 1 misplacedDefinition).session.arenas = World.parted.session.arenas.setIfInBounds 1 b ∧
        World.parted.session.Unreferenced 1 a ∧ a.Strayed misplacedDefinition b ∧ ¬a.Intact b := by
  have refused : World.parted.session.step 1 misplacedDefinition =
      some (.error (.foreignHandle .scope), (World.parted.act 1 misplacedDefinition).session) := rfl
  obtain ⟨a, b, here, after, unnamed, _, strayed⟩ :=
    refusalsLeaveIntact World.partedReachable (World.allowsHeld (by decide) rfl (.inl rfl)) refused
  exact ⟨⟨_, rfl, refused⟩, a, b, here, after, unnamed, strayed⟩

end CSource
