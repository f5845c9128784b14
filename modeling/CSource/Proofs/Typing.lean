import CSource.Proofs.Course.Worlds
import CSource.Proofs.Signatures

/-!
Handles are typed for good. A client that keeps to the handles of an arena, as what they were issued, never finds a
node of another shape under one of them, and neither does the arena under a reference that it has stored. So no call
and no query is ever refused for the shape of a node, except where a declaration of any shape is taken for a variable.
-/

namespace CSource

/-- Every stored reference names a node, and one of the right shape where its holder relies on the shape. -/
structure Arena.Typed (a : Arena) : Prop where
  present : ∀ s, a.Stores s → a.Present s.ref
  splitForward : ∀ (d func : DeclRef), a.node d = .ok (.splitForward func) →
    ∃ data, a.node func = .ok (.function data) ∧ data.lifecycle = .split
  synonym : ∀ (d : DeclRef) (ty : TypeRef), a.node d = .ok (.typeDef ty) ∨ a.node d = .ok (.usingType ty) →
    ∃ name aliased, a.node ty = .ok (.synonym name aliased)
  aggregate : ∀ (d : DeclRef) (ty : TypeRef) (forward : Bool), a.node d = .ok (.aggregate ty forward) →
    ∃ data, a.node ty = .ok (.aggregate data)
  enumeration : ∀ (d : DeclRef) (ty : TypeRef) (forward : Bool), a.node d = .ok (.enumeration ty forward) →
    ∃ data, a.node ty = .ok (.enumeration data)
  caseLabel : ∀ (s : StmtRef) (data : SwitchStmt), a.node s = .ok (.switch data) →
    ∀ label ∈ data.cases, ∃ l, a.node label = .ok (.caseLabel l)
  clause : ∀ (s init : StmtRef) (cond step : Option ExprRef) (body : ScopeRef),
    a.node s = .ok (.forLoop (some init) cond step body) →
    (∃ d, a.node init = .ok (.decl d)) ∨ ∃ e, a.node init = .ok (.expr e)
  labeled : ∀ (s inner : StmtRef) (name : String), a.node s = .ok (.label name (some inner)) →
    ∃ e, a.node inner = .ok (.expr e)
  method : ∀ (d : DeclRef) (data : FuncDecl) (m : Membership), a.node d = .ok (.function data) →
    data.method = some m → ∃ parent, a.node m.parent = .ok (.aggregate parent)
  memberScope : ∀ (scope : ScopeRef) (parent : TypeRef) (labeled : Bool) (entries : List Entry),
    a.node scope = .ok ⟨.members parent labeled, entries⟩ → ∃ data, a.node parent = .ok (.aggregate data)

section Closed

variable {a : Arena} {cause : Misuse}

theorem Arena.Closed.typed (closed : a.Closed) : a.Typed where
  present s stored := (closed.stored s stored).present
  splitForward d func here := by
    obtain ⟨n, found, accepted⟩ := (closed.slot here (List.mem_singleton_self _)).found
    cases n <;> try contradiction
    exact ⟨_, found, of_decide_eq_true accepted⟩
  synonym d ty here := by
    rcases here with here | here
    · exact (closed.slot here (List.mem_singleton_self _)).synonym
    · exact (closed.slot here (List.mem_singleton_self _)).synonym
  aggregate d ty forward here := (closed.slot here (List.mem_singleton_self _)).aggregate
  enumeration d ty forward here := (closed.slot here (List.mem_singleton_self _)).enumeration
  caseLabel s data here label listed := by
    have stored : label.as (.role .caseLabel) ∈ (StmtNode.switch data).slots :=
      List.mem_append_right _ (List.mem_map_of_mem listed)
    obtain ⟨n, found, accepted⟩ := (closed.slot here stored).found
    cases n <;> try contradiction
    exact ⟨_, found⟩
  clause s init cond step body here := by
    have stored : init.as .clause ∈ (StmtNode.forLoop (some init) cond step body).slots := by simp [StmtNode.slots]
    obtain ⟨n, found, accepted⟩ := (closed.slot here stored).found
    cases n <;> try contradiction
    · exact .inl ⟨_, found⟩
    · exact .inr ⟨_, found⟩
  labeled s inner name here := by
    obtain ⟨n, found, accepted⟩ := (closed.slot here (List.mem_singleton_self _)).found
    cases n <;> try contradiction
    exact ⟨_, found⟩
  method d data m here member := by
    have stored : m.parent.as .aggregate ∈ (DeclNode.function data).slots := by simp [DeclNode.slots, member]
    exact (closed.slot here stored).aggregate
  memberScope scope parent labeled entries here := (closed.slot here (List.mem_cons_self ..)).aggregate

theorem Arena.Closed.renderRefused (closed : a.Closed) {r : NodeRef} (present : a.Present r)
    (refused : a.render r = .error cause) : cause = .endless := by
  obtain ⟨shallow, deep⟩ := closed.written present a.depthBound
  unfold Arena.render Arena.segments at refused
  by_cases descends : a.Descends a.depthBound r
  · rw [deep descends] at refused
    exact (Except.error.inj refused).symm
  · obtain ⟨segments, done⟩ := shallow descends
    rw [done] at refused
    contradiction

theorem Except.mapError {α β : Type} {f : α → β} {x : Except Misuse α} (refused : f <$> x = .error cause) :
    x = .error cause := by
  cases x with
  | error other => exact congrArg _ (Except.error.inj refused)
  | ok y => contradiction

theorem mapMRefused {α β : Type} {f : α → Except Misuse β} {xs : List α} (refused : xs.mapM f = .error cause) :
    ∃ x ∈ xs, f x = .error cause := by
  induction xs with
  | nil => contradiction
  | cons x xs ih =>
    rw [List.mapM_cons] at refused
    cases first : f x with
    | error other =>
      rw [first] at refused
      cases Except.error.inj refused
      exact ⟨x, List.mem_cons_self .., first⟩
    | ok y =>
      rw [first] at refused
      cases rest : xs.mapM f with
      | error other =>
        rw [rest] at refused
        cases Except.error.inj refused
        obtain ⟨z, mem, here⟩ := ih rest
        exact ⟨z, List.mem_cons_of_mem _ mem, here⟩
      | ok ys =>
        rw [rest] at refused
        contradiction

end Closed

section Queries

variable {a : Arena} {cause : Misuse}

theorem bodyGiven {c : Category} {h : Handle c} {r : Role} {f : Node c → Except Misuse Place}
    (has : a.Has (h.as (.role r))) (given : ∀ n, Shape.accepts (.role r) c n = true → ∃ p, f n = .ok p) :
    (a.node h >>= f) ≠ .error cause := by
  obtain ⟨n, found, accepted⟩ := has.found
  obtain ⟨p, body⟩ := given n accepted
  rw [found]
  intro refused
  cases body.symm.trans refused

theorem functionGiven {f : FunctionRef} (has : a.Has (f.handle.as (.role .function))) :
    a.functionAt f.handle ≠ .error cause := by
  intro refused
  obtain ⟨n, found, accepted⟩ := has.found
  cases n <;> try contradiction
  cases refused.symm.trans (functionAtIff.mpr found)

theorem variableRefused {d : DeclRef} {shape : Shape} (has : a.Has (d.as shape))
    (refused : a.variableAt d = .error cause) : cause.isMistyped = false := by
  obtain ⟨n, found, _⟩ := has.found
  unfold Arena.variableAt at refused
  rw [found] at refused
  cases n <;> cases refused <;> rfl

theorem Arena.Closed.answerTyped (closed : a.Closed) {q : Query} (has : ∀ s ∈ slotsOf q.handles, a.Has s)
    (refused : a.answer q = .error cause) : cause.isMistyped = false := by
  have unwritten {r : NodeRef} (present : a.Present r) (silent : a.render r = .error cause) :
      cause.isMistyped = false := by
    cases closed.renderRefused present silent
    rfl
  cases q with
  | void | stats | dialect | rawTypeNames | comments => contradiction
  | node | scopeKind | scopeEntries =>
    obtain ⟨n, found, _⟩ := (has _ (List.mem_singleton_self _)).found
    cases (Except.mapError refused).symm.trans found
  | code r => exact unwritten (has _ (List.mem_singleton_self _)).present (Except.mapError refused)
  | codeOfEntries scope =>
    obtain ⟨n, found, _⟩ := (has _ (List.mem_singleton_self _)).found
    simp only [Arena.answer, found, bind, Except.bind] at refused
    obtain ⟨e, listed, silent⟩ := mapMRefused (Except.mapError refused)
    have stored : e.slot ∈ Node.slots .scope n := List.mem_append_right _ (List.mem_map_of_mem listed)
    exact unwritten (closed.stored _ (.node (Arena.nodeIff.mp found).2 stored)).present silent
  | codeOfArgs args =>
    obtain ⟨arg, listed, silent⟩ := mapMRefused (Except.mapError refused)
    have given : arg.slot ∈ slotsOf (Query.codeOfArgs args).handles := by
      rw [Query.handles, slotsOfArgs]
      exact List.mem_map_of_mem listed
    exact unwritten (has _ given).present silent
  | openPlace p =>
    have opened := Except.mapError refused
    unfold Arena.openPlace at opened
    split at opened <;> cases opened
    rfl
  | declName d =>
    obtain ⟨name, named⟩ := closed.declName (has _ (List.mem_singleton_self _))
    cases (Except.mapError refused).symm.trans named
  | qualify d segment =>
    obtain ⟨name, named⟩ := closed.declName (has _ (List.mem_singleton_self _))
    have nameless := Except.mapError refused
    unfold Arena.qualify at nameless
    rw [named] at nameless
    contradiction
  | className c | classKind c =>
    obtain ⟨data, found⟩ := (has (c.ty.as .aggregate) (List.mem_cons_self ..)).aggregate
    cases (Except.mapError refused).symm.trans (aggregateAtIff.mpr found)
  | enumName e =>
    obtain ⟨name, named⟩ := (has (e.ty.as .enumeration) (List.mem_cons_self ..)).tagName (.inr (.inl rfl))
    cases (Except.mapError refused).symm.trans named
  | varQualifiers d => exact variableRefused (has _ (List.mem_singleton_self _)) (Except.mapError refused)
  | lifecycle | functionName | isForward | funcQualifiers | methodQualifiers =>
    exact absurd (Except.mapError refused) (functionGiven (has _ (List.mem_singleton_self _)))
  | lambdaBody | ifBody | caseBody | loopBody | tryBody | conditionalBody | macroScope | namespaceBody =>
    refine absurd (Except.mapError refused) (bodyGiven (has _ (List.mem_singleton_self _)) fun n accepted => ?_)
    cases n <;> try contradiction
    all_goals exact ⟨_, rfl⟩

end Queries

theorem World.Reachable.heldHas {w : World} (reachable : w.Reachable .strict) {i : Issued} (holds : w.Holds .strict i)
    {s : Slot} (mem : s ∈ i.slots) : ∃ b, w.session.arenas[s.ref.arena]? = some b ∧ b.Has s := by
  obtain ⟨b, found, keeps⟩ := (reachable.sound.holds holds).2 s mem
  exact ⟨b, found, keeps.has (reachable.sound.numbered _ b found).symm⟩

/-- Stored references and handles name nodes of the shape that is relied on, at any time, and so neither a call nor a
query is refused for a shape. -/
theorem handlesStayTyped {w : World} (reachable : w.Reachable .strict) {n : Nat} {a : Arena}
    (here : w.session.arenas[n]? = some a) :
    a.Typed ∧
    (∀ i, w.Holds .strict i → ∀ s ∈ i.slots, ∃ b, w.session.arenas[s.ref.arena]? = some b ∧
      s.ref.index < (b.nodes s.ref.category).size ∧
      ∃ m, b.node s.ref.handle = .ok m ∧ s.shape.accepts s.ref.category m = true) ∧
    (∀ (call : Call) (cause : Misuse) (b : Arena), w.Allows .strict n call → call.perform.run a = .error cause b →
      cause.isMistyped = false) ∧
    (∀ (q : Query) (cause : Misuse), (∀ i ∈ q.handles, w.Holds .strict i) →
      (∀ s ∈ slotsOf q.handles, s.ref.arena = n) → a.answer q = .error cause → cause.isMistyped = false) := by
  have closed := reachable.closed n a here
  refine ⟨closed.typed, ?_, ?_, ?_⟩
  · intro i holds s mem
    obtain ⟨b, found, has⟩ := reachable.heldHas holds mem
    exact ⟨b, found, has.index, has.found⟩
  · intro call cause b allowed refused
    exact ((reachable.typedCourse allowed here).refused refused).2 trivial
  · intro q cause held own refused
    refine closed.answerTyped (fun s mem => ?_) refused
    obtain ⟨i, listed, inside⟩ := List.mem_flatMap.mp mem
    obtain ⟨b, found, has⟩ := reachable.heldHas (held i listed) inside
    rw [own s mem, here] at found
    cases Option.some.inj found
    exact has

/-- A method whose body is a switch with one label. -/
def World.switched : World :=
  (((splitMethod.act 0 (.decl (.body ⟨⟨0, 1⟩⟩))).act 0 (.expr (.raw "x"))).act 0
    (.putStmt ⟨.function, ⟨0, 1⟩⟩ rfl (.switch none ⟨0, 0⟩))).act 0 (.grow (.addCase ⟨⟨0, 0⟩⟩ none false))

theorem World.switchedReachable : switched.Reachable .strict := by
  refine .act (.act (.act (.act splitMethodReachable ?_) ?_) ?_) ?_
  all_goals exact allowsHeld (by decide) rfl (by decide)

theorem switchedTyped :
    ∃ a data cause b, World.switched.session.arenas[0]? = some a ∧
      a.node (⟨0, 0⟩ : StmtRef) = .ok (.switch data) ∧ data.cases = [⟨0, 1⟩] ∧
      (∃ l, a.node (⟨0, 1⟩ : StmtRef) = .ok (.caseLabel l)) ∧
      (Call.decl (.setMethodQualifiers ⟨⟨0, 1⟩⟩ { MethodQualifiers.none with special := some .delete })).perform.run a =
        .error cause b ∧
      cause.isMistyped = false := by
  obtain ⟨a, here⟩ : ∃ a, World.switched.session.arenas[0]? = some a := ⟨_, rfl⟩
  obtain ⟨data, found, listed⟩ : ∃ data, a.node (⟨0, 0⟩ : StmtRef) = .ok (.switch data) ∧ data.cases = [⟨0, 1⟩] := by
    cases here
    exact ⟨_, rfl, rfl⟩
  obtain ⟨cause, b, refused⟩ : ∃ cause b,
      (Call.decl (.setMethodQualifiers ⟨⟨0, 1⟩⟩ { MethodQualifiers.none with special := some .delete })).perform.run a =
        .error cause b := by
    cases here
    exact ⟨_, _, rfl⟩
  obtain ⟨typed, _, calls, _⟩ := handlesStayTyped World.switchedReachable here
  have label := typed.caseLabel _ data found ⟨0, 1⟩ (by simp [listed])
  refine ⟨a, data, cause, b, here, found, listed, label, refused, calls _ cause b ?_ refused⟩
  exact World.allowsHeld (by decide) rfl (by decide)

end CSource
