import CSource.Proofs.Course.Worlds

/-!
Arenas do not mix. A call that is given a handle of another arena is refused, unless it declares a tag of that arena
without its body. Such a declaration is the only node that can be used and that stores a reference to another arena.
-/

namespace CSource

/-- The references of a node that are stored as they come: the type of a forward declaration, and the aggregate of a
member scope. -/
def Node.loose : (c : Category) → Node c → List Slot
  | .decl, n => DeclNode.forwarded n
  | .scope, n => ScopeKind.slots (ScopeNode.kind n)
  | _, _ => []

/-- Every reference in the arena is to the arena itself, but for those that are stored as they come. -/
structure Arena.Owned (a : Arena) : Prop where
  nodes : ∀ (c : Category) (i : Nat) (n : Node c), (a.nodes c)[i]? = some n →
    ∀ s ∈ Node.slots c n, s.Own a ∨ s ∈ Node.loose c n
  tables : ∀ (t : Table) (e : t.Key × TypeRef), e ∈ t.entries a → ∀ s ∈ t.entrySlots e, s.Own a
  comments : ∀ e ∈ a.comments, e.1.arena = a.number

variable {p : Policy} {given : Slot → Prop} {a b : Arena}

theorem Node.growsLoose {c : Category} {old new : Node c} (grows : Grows c old new) : loose c new = loose c old := by
  cases c with
  | decl | scope => cases grows <;> rfl
  | _ => rfl

theorem Trusted.inherited (trusted : Trusted p given a) (tight : p.looseScopes = false) {s : Slot}
    (inherited : Inherited given a s) : s.Own a := by
  obtain ⟨scope, n, issued, here, mem⟩ := inherited
  obtain ⟨own, there⟩ := Arena.nodeIff.mp here
  obtain ⟨m, found, _, parent⟩ := trusted.keeps _ issued own
  cases Option.some.inj (found.symm.trans there)
  obtain ⟨q, isParent, rfl⟩ := List.mem_map.mp mem
  exact parent tight q (Option.mem_toList.mp isParent)

theorem Born.owned {c : Category} {n : Node c} (born : Born given a n) (trusted : Trusted p given a)
    (tight : p.looseScopes = false) : ∀ s ∈ Node.slots c n, s.Own a ∨ s ∈ Node.loose c n := by
  intro s mem
  rcases born.own with rfl | own
  · have empty : ScopeNode.entries n = [] := born.initial
    have slots : Node.slots .scope n = Node.loose .scope n := by
      simp [Node.slots, Node.loose, ScopeNode.slots, empty]
    rw [slots] at mem
    exact .inr mem
  · rcases own s mem with own | forwarded | inherited
    · exact .inl own
    · cases c <;> try contradiction
      exact .inr forwarded
    · exact .inl (trusted.inherited tight inherited)

theorem Arena.Owned.new (n : Nat) (d : Dialect) : (Arena.new n d).Owned where
  nodes _ _ _ found _ mem := absurd (.node found mem) Arena.newStores
  tables _ _ found _ mem := absurd (.table found mem) Arena.newStores
  comments _ found := absurd (.comment found rfl) Arena.newStores

theorem Arena.Owned.change (tight : p.looseScopes = false) (trusted : Trusted p given a) (change : Change given a b)
    (owned : a.Owned) : b.Owned := by
  cases change with
  | @alloc c n born =>
    refine ⟨?_, fun t e found s mem => ?_, fun e found => ?_⟩
    · intro d i m found s mem
      rw [Slot.Own, Arena.numberPush]
      exact Arena.pushForall owned.nodes (born.owned trusted tight) d i m found s mem
    · rw [Slot.Own, Arena.numberPush]
      exact owned.tables t e (by simpa [Table.entries] using found) s mem
    · rw [Arena.numberPush]
      exact owned.comments e (by simpa using found)
  | intern t key miss known allowed =>
    refine ⟨?_, fun u e found s mem => ?_, fun e found => ?_⟩
    · intro d i m found s mem
      rw [Slot.Own, Table.numberExtend]
      rw [Table.nodesExtend] at found
      exact Arena.pushForall (c := .type) owned.nodes (fun s mem => .inl (known s mem).2) d i m found s mem
    · rw [Slot.Own, Table.numberExtend]
      by_cases same : t = u
      · subst same
        rw [Table.entriesExtend] at found
        rcases List.mem_append.mp found with old | new
        · exact owned.tables t e old s mem
        · cases List.mem_singleton.mp new
          rcases List.mem_cons.mp mem with rfl | inner
          · rfl
          · exact (known s inner).2
      · rw [Table.entriesExtendOther same] at found
        exact owned.tables u e found s mem
    · rw [Table.numberExtend]
      exact owned.comments e (by simpa using found)
  | @grow c h old new here grown =>
    refine ⟨?_, fun t e found s mem => ?_, fun e found => ?_⟩
    · intro d i m found s mem
      rw [Slot.Own, Arena.numberReplace]
      refine Arena.replaceForall owned.nodes (fun s mem => ?_) d i m found s mem
      rcases grown.fresh s mem with before | ⟨own, _⟩
      · rw [Node.growsLoose grown.grows]
        exact owned.nodes c h.index old (Arena.nodeIff.mp here).2 s before
      · exact .inl own
    · rw [Slot.Own, Arena.numberReplace]
      exact owned.tables t e (by simpa [Table.entries] using found) s mem
    · rw [Arena.numberReplace]
      exact owned.comments e (by simpa using found)
  | comment r f own known =>
    refine ⟨fun d i m found => ?_, owned.tables, fun e found => ?_⟩
    · rw [Arena.nodesSetComments] at found
      exact owned.nodes d i m found
    · rcases upsertKeys found with new | ⟨old, older, key⟩
      · rw [new]
        exact own
      · rw [← key]
        exact owned.comments old older

theorem World.Reachable.owned {w : World} (reachable : w.Reachable p) (tight : p.looseScopes = false) :
    ∀ (n : Nat) (a : Arena), w.session.arenas[n]? = some a → a.Owned :=
  reachable.induct Arena.Owned.new fun trusted change owned => owned.change tight trusted change

def Call.forwardsAt (n : Nat) : Call → Bool
  | type (.forwardClass _) | type (.forwardEnum _) => true
  | putTag place _ (.declareAggregate _) | putTag place _ (.declareEnum _) => place.scope.arena == n
  | _ => false

def Query.opens : Query → Bool
  | openPlace _ | lambdaBody _ | ifBody _ | caseBody _ | loopBody _ | tryBody _ | conditionalBody _ _ | macroScope _
  | namespaceBody _ => true
  | _ => false

theorem DeclNode.forwardedStored {d : DeclNode} {s : Slot} (mem : s ∈ d.forwarded) : s ∈ d.slots := by
  cases d with
  | aggregate ty forward | enumeration ty forward => cases forward <;> first | contradiction | exact mem
  | _ => contradiction

section Call

variable {w : World} {n : Nat} {call : Call}

theorem World.Sound.passed (sound : w.Sound p) (allowed : w.Allows p n call) (here : w.session.arenas[n]? = some a)
    (tight : call.isLoose = false) {answer : Answer} (ran : call.perform.run a = .ok answer b) :
    ∀ s ∈ slotsOf call.checked, s.ref.arena = n := by
  have account := sound.account allowed here tight
  unfold LateAccount at account
  rw [ran] at account
  intro s mem
  rcases Call.checkedCases mem with handed | ⟨kind, scope, filled, rfl⟩
  · exact (account.2.1 s handed).trans (sound.numbered n a here)
  · exact (Call.filledOwn filled ran).trans (sound.numbered n a here)

theorem Call.foreignChecked (tight : call.isLoose = false) (other : call.forwardsAt n = false)
    (foreign : ∃ s ∈ slotsOf call.handles, s.ref.arena ≠ n) : ∃ s ∈ slotsOf call.checked, s.ref.arena ≠ n := by
  obtain ⟨s, mem, differs⟩ := foreign
  rw [handles, slotsOfAppend] at mem
  rcases List.mem_append.mp mem with listed | unseen
  · exact ⟨s, listed, differs⟩
  · cases call with
    | type call => cases call <;> contradiction
    | putTag place taken call =>
      cases call <;> try contradiction
      all_goals
        have away : place.scope.arena ≠ n := by simpa [forwardsAt] using other
        exact ⟨place.slot, List.mem_cons_self .., away⟩
    | _ => contradiction

theorem aggregateArena {c : ClassRef} {s : Slot} (coherent : (Issued.aggregate c).Coherent)
    (mem : s ∈ (Issued.aggregate c).slots) : s.ref.arena = c.ty.arena := by
  rcases List.mem_cons.mp mem with rfl | later
  · rfl
  · cases List.mem_singleton.mp later
    exact coherent

theorem enumerationArena {r : EnumRef} {s : Slot} (coherent : (Issued.enumeration r).Coherent)
    (mem : s ∈ (Issued.enumeration r).slots) : s.ref.arena = r.ty.arena := by
  rcases List.mem_cons.mp mem with rfl | later
  · rfl
  · cases List.mem_singleton.mp later
    exact coherent

theorem declarationPlaced {place : Place} {m : ScopeNode} (here : a.node place.scope = .ok m) (d : DeclNode) :
    ∃ answer b, (Answer.decl <$> (Build.alloc .decl d >>= Build.pushDeclStmt place.scope)).run a = .ok answer b ∧
      b.decls = a.decls.push d := by
  have later : (a.push .decl d).node place.scope = .ok m := Arena.nodePushKeeps (c := .decl) d here
  have same : (a.nextHandle .decl).arena = (a.push .decl d).number := by simp [Arena.nextHandle]
  obtain ⟨b, pushed, kept⟩ := runPushDeclStmt same later
  refine ⟨.decl (a.nextHandle .decl), b, ?_, kept⟩
  rw [map_eq_pure_bind, EStateM.run_bind, EStateM.run_bind, Build.runAlloc]
  dsimp only
  rw [pushed]
  rfl

theorem Call.forwardsRun (forwards : call.forwardsAt a.number = true)
    (present : ∀ place, .place place ∈ call.checked → place.scope.arena = a.number →
      ∃ m, a.node place.scope = .ok m) :
    ∃ answer b d, call.perform.run a = .ok answer b ∧ b.decls = a.decls.push d ∧
      ∀ i ∈ call.unchecked, i.Coherent → ∀ s ∈ i.slots, ∃ t ∈ d.forwarded, t.ref.arena = s.ref.arena := by
  cases call with
  | type call =>
    cases call <;> try contradiction
    case forwardClass c =>
      refine ⟨_, _, .aggregate c.ty true, rfl, rfl, List.forall_mem_singleton.mpr ?_⟩
      exact fun coherent s mem => ⟨_, List.mem_singleton_self _, (aggregateArena coherent mem).symm⟩
    case forwardEnum r =>
      refine ⟨_, _, .enumeration r.ty true, rfl, rfl, List.forall_mem_singleton.mpr ?_⟩
      exact fun coherent s mem => ⟨_, List.mem_singleton_self _, (enumerationArena coherent mem).symm⟩
  | putTag place taken call =>
    cases call <;> try contradiction
    case declareAggregate c =>
      obtain ⟨m, here⟩ := present place (List.mem_cons_self ..) (beq_iff_eq.mp forwards)
      obtain ⟨answer, b, ran, stored⟩ := declarationPlaced here (.aggregate c.ty true)
      refine ⟨answer, b, _, ran, stored, List.forall_mem_singleton.mpr ?_⟩
      exact fun coherent s mem => ⟨_, List.mem_singleton_self _, (aggregateArena coherent mem).symm⟩
    case declareEnum r =>
      obtain ⟨m, here⟩ := present place (List.mem_cons_self ..) (beq_iff_eq.mp forwards)
      obtain ⟨answer, b, ran, stored⟩ := declarationPlaced here (.enumeration r.ty true)
      refine ⟨answer, b, _, ran, stored, List.forall_mem_singleton.mpr ?_⟩
      exact fun coherent s mem => ⟨_, List.mem_singleton_self _, (enumerationArena coherent mem).symm⟩
  | _ => contradiction

theorem Call.forwardsChecked (forwards : call.forwardsAt n = true) : ∀ s ∈ slotsOf call.checked, s.ref.arena = n := by
  cases call with
  | type call => cases call <;> first | contradiction | nofun
  | putTag place taken call =>
    cases call <;> try contradiction
    all_goals exact List.forall_mem_singleton.mpr (beq_iff_eq.mp forwards)
  | _ => contradiction

end Call

theorem Query.opensOwn {q : Query} (opens : q.opens = true)
    (foreign : ∃ s ∈ slotsOf q.handles, s.ref.arena ≠ a.number) :
    ∃ cause, a.answer q = .error cause := by
  obtain ⟨s, mem, differs⟩ := foreign
  cases q <;> try contradiction
  all_goals
    cases List.mem_singleton.mp mem
  case openPlace place =>
    have other : a.owns place.scope = false := beq_false_of_ne differs
    have refused : a.openPlace place = .error (.foreignHandle .scope) := by
      unfold Arena.openPlace
      rw [other]
      rfl
    exact ⟨.foreignHandle .scope, by rw [Arena.answer, refused]; rfl⟩
  all_goals
    have missing := Arena.nodeForeign differs
    simp only [Arena.answer, Arena.bodyOfLambda, Arena.bodyOfIf, Arena.bodyOfCase, Arena.bodyOfLoop, Arena.bodyOfTry,
      Arena.bodyOfConditional, Arena.bodyOfMacro, Arena.bodyOfNamespace, missing]
    exact ⟨_, rfl⟩

/-- No stored reference and no handle that a client can use names the node. -/
def World.Unnamed (p : Policy) (w : World) (r : NodeRef) : Prop :=
  (∀ (m : Nat) (c : Arena), w.session.arenas[m]? = some c → ∀ s, c.Stores s → s.ref ≠ r) ∧
    ∀ i, w.Holds p i → ∀ s ∈ i.slots, s.ref ≠ r

section World

variable {w : World} {n : Nat}

theorem World.Sound.unnamed (sound : w.Sound p) (tight : p.looseScopes = false)
    (here : w.session.arenas[n]? = some a) {i : Nat} {m : ScopeNode} {q : TypeRef} (found : a.scopes[i]? = some m)
    (parent : m.kind.parent? = some q) (foreign : q.arena ≠ n) : w.Unnamed p ⟨.scope, n, i⟩ := by
  -- whatever names a scope vouches for its aggregate, and nothing vouches for a foreign one
  have unkept {s : Slot} (keeps : w.session.Keeps p s) : s.ref ≠ ⟨.scope, n, i⟩ := by
    rintro same
    obtain ⟨r, shape⟩ := s
    cases same
    obtain ⟨c, there, k, present, _, own⟩ := keeps
    cases Option.some.inj (here.symm.trans there)
    cases Option.some.inj (found.symm.trans present)
    exact foreign ((own tight q parent).trans (sound.numbered n a here))
  refine ⟨fun m c there s stored => unkept (sound.stored m c there s stored).1, ?_⟩
  exact fun h holds s mem => unkept ((sound.holds holds).2 s mem)

theorem World.Sound.forwards (sound : w.Sound p) {call : Call} (allowed : w.Allows p n call)
    (here : w.session.arenas[n]? = some a) (forwards : call.forwardsAt n = true)
    (foreign : ∃ s ∈ slotsOf call.handles, s.ref.arena ≠ n) :
    ∃ answer b, call.perform.run a = .ok answer b ∧ ∃ s, b.Stores s ∧ s.ref.arena ≠ n := by
  have number := sound.numbered n a here
  have present : ∀ place, .place place ∈ call.checked → place.scope.arena = a.number →
      ∃ m, a.node place.scope = .ok m := by
    intro place listed own
    have mem : place.slot ∈ slotsOf call.handles :=
      List.mem_flatMap.mpr ⟨_, List.mem_append_left _ listed, List.mem_singleton_self _⟩
    exact (sound.faithful here fun _ given => given.2).present (sound.issued allowed _ mem) own
  obtain ⟨answer, b, d, ran, stored, tags⟩ := Call.forwardsRun (by rwa [number]) present
  refine ⟨answer, b, ran, ?_⟩
  obtain ⟨s, mem, differs⟩ := foreign
  obtain ⟨i, listed, inside⟩ := List.mem_flatMap.mp mem
  rcases List.mem_append.mp listed with checked | unseen
  · exact absurd (Call.forwardsChecked forwards s (List.mem_flatMap.mpr ⟨i, checked, inside⟩)) differs
  · obtain ⟨t, forwarded, same⟩ := tags i unseen (sound.vouched allowed i listed).1 s inside
    have now : (b.nodes .decl)[a.decls.size]? = some d := by
      show b.decls[a.decls.size]? = some d
      rw [stored]
      exact Array.getElem?_push_size
    exact ⟨t, .node now (DeclNode.forwardedStored forwarded), same ▸ differs⟩

end World

/-- In every reachable world, a call that is given a handle of another arena is refused exactly if it is not the
forward declaration of a tag, and such a declaration stores the foreign type. Scopes are opened only in their own
arena. No other reference that can be reached is to another arena. -/
theorem foreignHandlesRefused {w : World} (reachable : w.Reachable p) (tight : p.looseScopes = false) :
    (∀ (n : Nat) (call : Call) (result : Except Misuse Answer) (after : Session), w.Allows p n call →
      w.session.step n call = some (result, after) → (∃ s ∈ slotsOf call.handles, s.ref.arena ≠ n) →
      ((∃ cause, result = .error cause) ↔ call.forwardsAt n = false) ∧
        (call.forwardsAt n = true → ∃ b s, after.arenas[n]? = some b ∧ b.Stores s ∧ s.ref.arena ≠ n)) ∧
    (∀ (n : Nat) (q : Query) (result : Except Misuse Answer), q.opens = true → w.session.ask n q = some result →
      (∃ s ∈ slotsOf q.handles, s.ref.arena ≠ n) → ∃ cause, result = .error cause) ∧
    ∀ (n : Nat) (a : Arena), w.session.arenas[n]? = some a → a.Owned ∧
      ∀ (i : Nat) (m : ScopeNode) (q : TypeRef), a.scopes[i]? = some m → m.kind.parent? = some q → q.arena ≠ n →
        w.Unnamed p ⟨.scope, n, i⟩ := by
  have sound := reachable.sound
  refine ⟨?_, ?_, ?_⟩
  · intro n call result after allowed ran foreign
    obtain ⟨a, b, here, rfl, ends⟩ := Session.stepCases ran
    cases forwards : call.forwardsAt n with
    | false =>
      refine ⟨⟨fun _ => rfl, fun _ => ?_⟩, nofun⟩
      obtain ⟨s, listed, differs⟩ := Call.foreignChecked (allowed.tight tight) forwards foreign
      cases result with
      | error cause => exact ⟨cause, rfl⟩
      | ok answer => exact absurd (sound.passed allowed here (allowed.tight tight) ends s listed) differs
    | true =>
      obtain ⟨answer, c, performed, stored⟩ := sound.forwards allowed here forwards foreign
      cases result with
      | error cause =>
        have failed : call.perform.run a = .error cause b := ends
        rw [performed] at failed
        contradiction
      | ok other =>
        have passed : call.perform.run a = .ok other b := ends
        rw [performed] at passed
        cases passed
        have inside := (Array.getElem?_eq_some_iff.mp here).1
        obtain ⟨s, stored, differs⟩ := stored
        exact ⟨⟨nofun, nofun⟩, fun _ => ⟨b, s, by simp [inside], stored, differs⟩⟩
  · intro n q result opens ran foreign
    obtain ⟨a, here, answered⟩ := Option.map_eq_some_iff.mp ran
    rw [← sound.numbered n a here] at foreign
    obtain ⟨cause, refused⟩ := Query.opensOwn opens foreign
    exact ⟨cause, answered.symm.trans refused⟩
  · intro n a here
    refine ⟨reachable.owned tight n a here, ?_⟩
    exact fun i m q found parent foreign => sound.unnamed tight here found parent foreign

def World.tagged : World := ((empty.grow .cxx).grow .cxx).act 1 (.type (.newAggregate .structKind (.ofString "S")))

def strayForward : Call := .type (.forwardClass ⟨⟨1, 1⟩, ⟨1, 0⟩⟩)

theorem strayForwardAccepted :
    World.tagged.session.step 0 strayForward =
        some (.ok (.decl ⟨0, 0⟩), (World.tagged.act 0 strayForward).session) ∧
      ∃ b s, (World.tagged.act 0 strayForward).session.arenas[0]? = some b ∧ b.Stores s ∧ s.ref.arena ≠ 0 := by
  have reachable : World.tagged.Reachable ⟨false, false, true⟩ :=
    ((World.Reachable.start.grow .cxx).grow .cxx).act (World.allowsHeld nofun rfl (.inl rfl))
  have ran : World.tagged.session.step 0 strayForward =
      some (.ok (.decl ⟨0, 0⟩), (World.tagged.act 0 strayForward).session) := rfl
  have allowed : World.tagged.Allows ⟨false, false, true⟩ 0 strayForward := World.allowsHeld (by decide) rfl (.inl rfl)
  exact ⟨ran, ((foreignHandlesRefused reachable rfl).1 0 strayForward _ _ allowed ran (by decide)).2 rfl⟩

end CSource
