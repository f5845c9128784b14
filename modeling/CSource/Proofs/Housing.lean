import CSource.Proofs.Course.Worlds
import CSource.Proofs.Functions

/-!
Housing of scopes. Every scope that a node owns is of the kind that its part of the node needs, and no scope is owned
twice, by two nodes or by one node in two parts. So what fills one scope changes none of the others.
-/

namespace CSource

open Build

theorem functionBodiesKind {scopes : List ScopeRef} {body : Body} (mem : body ∈ functionBodies scopes) :
    body.kind = .function := by
  obtain ⟨_, _, rfl⟩ := List.mem_map.mp mem
  rfl

namespace Arena

def bodiesOf (a : Arena) (r : NodeRef) : List Body :=
  match a.node r.handle with
  | .ok n => Node.bodies r.category r.handle n
  | .error _ => []

structure Housed (a : Arena) : Prop where
  kept : ∀ r, ∀ body ∈ a.bodiesOf r, ∃ entries, a.node body.scope = .ok ⟨body.kind, entries⟩
  distinct : ∀ r, ((a.bodiesOf r).map (·.scope)).Nodup
  apart : ∀ r s x y, x ∈ a.bodiesOf r → y ∈ a.bodiesOf s → x.scope = y.scope → r = s

def KeepsKinds (a b : Arena) : Prop :=
  ∀ (scope : ScopeRef) (n : ScopeNode), a.node scope = .ok n → ∃ entries, b.node scope = .ok ⟨n.kind, entries⟩

variable {a b : Arena} {c : Category} {h : Handle c} {old new : Node c} {r : NodeRef}

theorem bodiesOfFound (found : a.node h = .ok old) : a.bodiesOf h.ref = Node.bodies c h old := by
  unfold bodiesOf
  rw [show a.node h.ref.handle = .ok old from found]
  rfl

theorem bodiesOfMissing {cause : Misuse} (missing : a.node r.handle = .error cause) : a.bodiesOf r = [] := by
  unfold bodiesOf
  rw [missing]

theorem bodiesOfSame (same : b.node r.handle = a.node r.handle) : b.bodiesOf r = a.bodiesOf r := by
  unfold bodiesOf
  rw [same]

theorem bodiesOfNext (a : Arena) (c : Category) : a.bodiesOf (a.nextHandle c).ref = [] :=
  bodiesOfMissing (a.nodeBeyond (h := a.nextHandle c) rfl (Nat.le_refl _))

theorem bodiesOfPush (bare : ∀ self, Node.bodies c self new = []) : (a.push c new).bodiesOf r = a.bodiesOf r := by
  by_cases last : r = (a.nextHandle c).ref
  · subst last
    rw [bodiesOfFound nodePushed, bodiesOfNext, bare]
  · exact bodiesOfSame (nodePushOther last)

theorem bodiesOfReplace (found : a.node h = .ok old) (same : Node.bodies c h new = Node.bodies c h old) :
    (a.replace h new).bodiesOf r = a.bodiesOf r := by
  by_cases hit : r = h.ref
  · subst hit
    rw [bodiesOfFound found, bodiesOfFound (replacedNode found new), same]
  · exact bodiesOfSame (nodeReplaceOther (nodeIff.mp found).1 hit)

theorem KeepsKinds.ofNodes
    (same : ∀ (scope : ScopeRef) (n : ScopeNode), a.node scope = .ok n → b.node scope = .ok n) : a.KeepsKinds b :=
  fun scope n found => ⟨n.entries, same scope n found⟩

theorem KeepsKinds.replace (inner : c ≠ .scope) (found : a.node h = .ok old) : a.KeepsKinds (a.replace h new) := by
  refine .ofNodes fun scope n there => ?_
  rw [nodeReplaceOther (nodeIff.mp found).1 fun hit => inner (congrArg NodeRef.category hit).symm]
  exact there

namespace Housed

theorem same (housed : a.Housed) (kinds : a.KeepsKinds b) (owns : ∀ r, b.bodiesOf r = a.bodiesOf r) : b.Housed where
  kept r body mem := by
    rw [owns] at mem
    obtain ⟨entries, found⟩ := housed.kept r body mem
    exact kinds _ _ found
  distinct r := by
    rw [owns]
    exact housed.distinct r
  apart r s x y := by
    rw [owns, owns]
    exact housed.apart r s x y

theorem push (housed : a.Housed) (bare : ∀ self, Node.bodies c self new = []) : (a.push c new).Housed :=
  housed.same (.ofNodes fun _ _ => nodePushKeeps new) fun _ => bodiesOfPush bare

theorem more (housed : a.Housed) {kind : ScopeKind} (kinds : (a.push .scope ⟨kind, []⟩).KeepsKinds b)
    (gains : (b.bodiesOf r).Perm (⟨a.nextHandle .scope, kind⟩ :: a.bodiesOf r))
    (others : ∀ s, s ≠ r → b.bodiesOf s = a.bodiesOf s) : b.Housed := by
  -- the scope was made for the node, so no node owned it before
  have older {s : NodeRef} {body : Body} (mem : body ∈ a.bodiesOf s) : body.scope ≠ a.nextHandle .scope := by
    intro clash
    obtain ⟨entries, found⟩ := housed.kept s body mem
    rw [clash, nodeBeyond rfl (Nat.le_refl _)] at found
    contradiction
  have source {s : NodeRef} {body : Body} (mem : body ∈ b.bodiesOf s) :
      (s = r ∧ body = ⟨a.nextHandle .scope, kind⟩) ∨ body ∈ a.bodiesOf s := by
    by_cases hit : s = r
    · subst hit
      exact (List.mem_cons.mp (gains.mem_iff.mp mem)).imp_left fun same => ⟨rfl, same⟩
    · rw [others s hit] at mem
      exact .inr mem
  refine ⟨fun s body mem => ?_, fun s => ?_, fun s t x y memX memY clash => ?_⟩
  · rcases source mem with ⟨_, rfl⟩ | before
    · exact kinds _ _ nodePushed
    · obtain ⟨entries, found⟩ := housed.kept s body before
      exact kinds _ _ (nodePushKeeps _ found)
  · by_cases hit : s = r
    · subst hit
      rw [(gains.map _).nodup_iff, List.map_cons, List.nodup_cons]
      refine ⟨fun mem => ?_, housed.distinct s⟩
      obtain ⟨body, before, clash⟩ := List.mem_map.mp mem
      exact older before clash
    · rw [others s hit]
      exact housed.distinct s
  · rcases source memX with ⟨rfl, rfl⟩ | beforeX <;> rcases source memY with ⟨rfl, rfl⟩ | beforeY
    · rfl
    · exact absurd clash.symm (older beforeY)
    · exact absurd clash (older beforeX)
    · exact housed.apart s t x y beforeX beforeY clash

theorem ofNew (n : Nat) (d : Dialect) : (Arena.new n d).Housed := by
  have bare (r : NodeRef) : (Arena.new n d).bodiesOf r = [] := by
    cases found : (Arena.new n d).node r.handle with
    | error cause => exact bodiesOfMissing found
    | ok m =>
      obtain ⟨category, arena, index⟩ := r
      have there := (nodeIff.mp found).2
      cases category <;> cases index <;> simp [Arena.new, nodes, NodeRef.handle] at there
      subst there
      exact bodiesOfFound found
  refine ⟨fun r body mem => ?_, fun r => ?_, fun r s x y mem => ?_⟩
  · rw [bare] at mem
    contradiction
  · rw [bare]
    exact List.nodup_nil
  · rw [bare] at mem
    contradiction

theorem stocked (stocks : Stocks a b) (housed : a.Housed) : b.Housed := by
  induction stocks with
  | refl => exact housed
  | node _ n bare _ ih => exact ih.push bare
  | @shared b _ t key ih =>
    have pushed : (b.push .type (t.interning.node key)).Housed := ih.push fun self => by cases t <;> rfl
    exact pushed.same (.ofNodes fun scope n found => (t.nodeExtend key b scope).trans found)
      fun r => bodiesOfSame (t.nodeExtend key b _)
  | @owner b d _ kind n owns _ ih =>
    have scopes (s : NodeRef) : (b.push .scope ⟨kind, []⟩).bodiesOf s = b.bodiesOf s := bodiesOfPush fun _ => rfl
    refine ih.more (r := ((b.push .scope ⟨kind, []⟩).nextHandle d).ref) (.ofNodes fun _ _ => nodePushKeeps n) ?_
      fun s other => (bodiesOfSame (nodePushOther other)).trans (scopes s)
    rw [bodiesOfFound nodePushed, owns, ← scopes, bodiesOfNext]

theorem acted (acts : Acts a b) (housed : a.Housed) : b.Housed := by
  cases acts with
  | rest => exact housed
  | grow new inner found same => exact housed.same (.replace inner found) fun _ => bodiesOfReplace found same
  | comment r f =>
    exact housed.same (.ofNodes fun scope n found => (a.nodeSetComments r f scope).trans found)
      fun s => bodiesOfSame (a.nodeSetComments r f _)
  | @house d h old kind new inner found more =>
    have scopes (s : NodeRef) : (a.push .scope ⟨kind, []⟩).bodiesOf s = a.bodiesOf s := bodiesOfPush fun _ => rfl
    have there := nodePushKeeps (c := .scope) ⟨kind, []⟩ found
    refine housed.more (r := h.ref) (.replace inner there) ?_
      fun s other => (bodiesOfSame (nodeReplaceOther (nodeIff.mp there).1 other)).trans (scopes s)
    rw [bodiesOfFound (replacedNode there new), ← scopes, bodiesOfFound there]
    exact more

end Housed

end Arena

section Filling

variable {scope : ScopeRef} {a b : Arena}

theorem Defines.bodiesOf (defines : Defines a b) (r : NodeRef) : b.bodiesOf r = a.bodiesOf r := by
  obtain ⟨h, f, found, rfl⟩ := defines
  exact Arena.bodiesOfReplace found rfl

theorem Defines.keepsKinds (defines : Defines a b) : a.KeepsKinds b := by
  obtain ⟨h, f, found, rfl⟩ := defines
  exact .replace (c := .decl) nofun found

theorem Puts.bodiesOf (puts : Puts scope a b) (r : NodeRef) : b.bodiesOf r = a.bodiesOf r := by
  obtain ⟨n, e, here, rfl⟩ := puts
  exact Arena.bodiesOfReplace here rfl

theorem Puts.keepsKinds (puts : Puts scope a b) : a.KeepsKinds b := by
  obtain ⟨n, e, here, rfl⟩ := puts
  intro s m found
  by_cases hit : s.ref = scope.ref
  · cases refInjective hit
    cases Except.ok.inj (here.symm.trans found)
    exact ⟨_, Arena.replacedNode here _⟩
  · exact ⟨m.entries, (Arena.nodeReplaceOther (nodeOwn here) hit).trans found⟩

theorem Fills.bodiesOf (fills : Fills scope a b) (r : NodeRef) : b.bodiesOf r = a.bodiesOf r := by
  obtain ⟨mid, rfl | defines, puts⟩ := fills
  · exact puts.bodiesOf r
  · exact (puts.bodiesOf r).trans (defines.bodiesOf r)

theorem Stocks.bodiesOf (stocks : Stocks a b) {r : NodeRef} {body : Body} (mem : body ∈ a.bodiesOf r) :
    b.bodiesOf r = a.bodiesOf r := by
  cases found : a.node r.handle with
  | error cause =>
    rw [Arena.bodiesOfMissing found] at mem
    contradiction
  | ok n => exact Arena.bodiesOfSame ((stocks.keepsNode found).trans found.symm)

end Filling

theorem World.Reachable.housed {p : Policy} {w : World} (reachable : w.Reachable p) :
    ∀ (n : Nat) (a : Arena), w.session.arenas[n]? = some a → a.Housed :=
  reachable.inductCourse Arena.Housed.ofNew Arena.Housed.stocked Arena.Housed.acted
    (fun defines housed => housed.same defines.keepsKinds defines.bodiesOf)
    fun puts housed => housed.same puts.keepsKinds puts.bodiesOf

namespace Aggregate

def unlabeled (data : Aggregate) : List Region := data.regions.filter (·.access.isNone)

theorem defaultScopeEq (data : Aggregate) : data.defaultScope = data.unlabeled.head?.map (·.scope) := by
  unfold defaultScope unlabeled
  rw [List.head?_filter]

theorem unlabeledNone {data : Aggregate} (none : data.defaultScope = none) : data.unlabeled = [] := by
  rw [defaultScopeEq, Option.map_eq_none_iff] at none
  exact List.head?_eq_none_iff.mp none

theorem unlabeledSome {data : Aggregate} (one : data.unlabeled.length ≤ 1) {scope : ScopeRef}
    (opened : data.defaultScope = some scope) : data.unlabeled = [⟨none, scope⟩] := by
  rw [defaultScopeEq] at opened
  cases all : data.unlabeled with
  | nil => simp [all] at opened
  | cons region rest =>
    have member : region ∈ data.unlabeled := by simp [all]
    have bare : region.access = none := by simpa using (List.mem_filter.mp member).2
    have last : rest = [] := by simpa [all] using one
    have same : region.scope = scope := by simpa [all] using opened
    rw [last, ← same, ← bare]

end Aggregate

def Node.OneUnlabeled : (c : Category) → Node c → Prop
  | .type, .aggregate data => data.unlabeled.length ≤ 1
  | _, _ => True

theorem Node.oneUnlabeled : NodeLaw fun _ => Node.OneUnlabeled where
  void _ := trivial
  born {_ c n} initial _ := by
    cases c with
    | type =>
      cases n with
      | aggregate data =>
        have bare : data.regions = [] := initial.2.2
        simp [OneUnlabeled, Aggregate.unlabeled, bare]
      | _ => trivial
    | _ => trivial
  shared t _ _ := by cases t <;> trivial
  grown {_ c old new} grows _ holds := by
    cases c with
    | type =>
      cases grows with
      | region data r first =>
        cases labeled : r.access with
        | some access => simpa [OneUnlabeled, Aggregate.unlabeled, labeled] using holds
        | none =>
          have bare := Aggregate.unlabeledNone (first labeled)
          unfold Aggregate.unlabeled at bare
          simp [OneUnlabeled, Aggregate.unlabeled, bare, labeled]
      | base data b => exact holds
      | final data isFinal => exact holds
      | _ => trivial
    | _ => trivial

theorem runMembers {a : Arena} {c : ClassRef} {data : Aggregate} (here : a.node c.ty = .ok (.aggregate data)) :
    (members c).run a = match data.defaultScope with
      | some scope => .ok ⟨.member, scope⟩ a
      | none => .ok ⟨.member, a.nextHandle .scope⟩ ((a.push .scope ⟨.members c.ty false, []⟩).replace c.ty
          (.aggregate { data with regions := data.regions ++ [⟨none, a.nextHandle .scope⟩] })) := by
  have there := Arena.nodePushKeeps (c := .scope) ⟨.members c.ty false, []⟩ here
  unfold members modifyAggregate
  rw [EStateM.run_bind, runRead, aggregateAtIff.mpr here]
  dsimp only
  cases data.defaultScope with
  | some scope => rfl
  | none =>
    dsimp only
    rw [EStateM.run_bind, newScope, runAlloc]
    dsimp only
    rw [EStateM.run_bind, EStateM.run_bind, runRead, aggregateAtIff.mpr there]
    rfl

theorem membersOpensOne {a : Arena} {c : ClassRef} {data : Aggregate} (here : a.node c.ty = .ok (.aggregate data))
    (one : data.unlabeled.length ≤ 1) :
    ∃ scope later b, (Call.type (.members c)).perform.run a = .ok (.place ⟨.member, scope⟩) b ∧
      b.node c.ty = .ok (.aggregate later) ∧ later.unlabeled = [⟨none, scope⟩] ∧
      ∀ region ∈ data.unlabeled, region.scope = scope ∧ b = a := by
  have asked := runMembers here
  change ∃ scope later b, (Answer.place <$> members c).run a = .ok (.place ⟨.member, scope⟩) b ∧ _
  rw [map_eq_pure_bind]
  simp only [EStateM.run_bind]
  cases opened : data.defaultScope with
  | some scope =>
    rw [opened] at asked
    have only := Aggregate.unlabeledSome one opened
    refine ⟨scope, data, a, by rw [asked]; rfl, here, only, ?_⟩
    rw [only]
    exact List.forall_mem_singleton.mpr ⟨rfl, rfl⟩
  | none =>
    rw [opened] at asked
    have bare := Aggregate.unlabeledNone opened
    have there := Arena.nodePushKeeps (c := .scope) ⟨.members c.ty false, []⟩ here
    refine ⟨_, _, _, by rw [asked]; rfl, Arena.replacedNode there _, ?_, ?_⟩
    · unfold Aggregate.unlabeled at bare
      simp [Aggregate.unlabeled, bare]
    · rw [bare]
      exact List.forall_mem_nil _

namespace Arena.Housed

variable {a b : Arena} {r s : NodeRef} {i j : Nat} {x y : Body}

theorem once (housed : a.Housed) (left : (a.bodiesOf r)[i]? = some x) (right : (a.bodiesOf s)[j]? = some y)
    (same : x.scope = y.scope) : r = s ∧ i = j := by
  have owner := housed.apart r s x y (List.mem_of_getElem? left) (List.mem_of_getElem? right) same
  subst owner
  have inside := (List.getElem?_eq_some_iff.mp left).1
  refine ⟨rfl, (List.getElem?_inj (by simpa using inside) (housed.distinct r)).mp ?_⟩
  rw [List.getElem?_map, List.getElem?_map, left, right]
  exact congrArg some same

end Arena.Housed

theorem Ends.fillsOne {call : Call} {a b : Arena} {scope : ScopeRef}
    (filled : call.filled? = some scope) {result : Except Misuse Answer} (ends : Ends call.perform a result b)
    (housed : a.Housed) {r : NodeRef} {body : Body} (mem : body ∈ a.bodiesOf r) (other : body.scope ≠ scope) :
    b.bodiesOf r = a.bodiesOf r ∧ b.node body.scope = a.node body.scope := by
  obtain ⟨entries, found⟩ := housed.kept r body mem
  cases result with
  | error cause =>
    obtain ⟨mid, stocks, marked⟩ := ((call.plainCourse a).refused ends).1
    have bodies := stocks.bodiesOf mem
    have kept := (stocks.keepsNode found).trans found.symm
    rcases marked with rfl | defines
    · exact ⟨bodies, kept⟩
    · exact ⟨(defines.bodiesOf r).trans bodies, (defines.nodeOther body.scope nofun).trans kept⟩
  | ok answer =>
    obtain ⟨mid, stocks, fills⟩ := call.fills filled ends
    refine ⟨(fills.bodiesOf r).trans (stocks.bodiesOf mem), ?_⟩
    exact (fills.keepsOther other).trans ((stocks.keepsNode found).trans found.symm)

/-- The scopes that nodes own: their kinds, that each has one owner, the region of an aggregate that has no label, and
what follows for the other scopes when one of them is filled. -/
theorem ownedScopesApart {p : Policy} {w : World} (reachable : w.Reachable p) {n : Nat} {a : Arena}
    (here : w.session.arenas[n]? = some a) :
    (∀ (r : NodeRef) (i : Nat) (x : Body), (a.bodiesOf r)[i]? = some x →
      ∃ entries, a.node x.scope = .ok ⟨x.kind, entries⟩) ∧
    (∀ (r s : NodeRef) (i j : Nat) (x y : Body), (a.bodiesOf r)[i]? = some x → (a.bodiesOf s)[j]? = some y →
      x.scope = y.scope → r = s ∧ i = j) ∧
    (∀ (c : ClassRef) data, a.node c.ty = .ok (.aggregate data) →
      data.unlabeled.length ≤ 1 ∧
      ∃ scope later b, (Call.type (.members c)).perform.run a = .ok (.place ⟨.member, scope⟩) b ∧
        b.node c.ty = .ok (.aggregate later) ∧ later.unlabeled = [⟨none, scope⟩] ∧
        ∀ region ∈ data.unlabeled, region.scope = scope ∧ b = a) ∧
    (∀ (call : Call) (result : Except Misuse Answer) (b : Arena) (r s : NodeRef) (i j : Nat) (x y : Body),
      w.Allows p n call → Ends call.perform a result b → (a.bodiesOf r)[i]? = some x → call.filled? = some x.scope →
      (a.bodiesOf s)[j]? = some y → (s, j) ≠ (r, i) →
      (b.bodiesOf s)[j]? = some y ∧ b.node y.scope = a.node y.scope) := by
  have housed := reachable.housed n a here
  refine ⟨?_, ?_, ?_, ?_⟩
  · exact fun r i x part => housed.kept r x (List.mem_of_getElem? part)
  · exact fun r s i j x y => housed.once
  · intro c data found
    have one : data.unlabeled.length ≤ 1 :=
      Node.oneUnlabeled.reachable reachable here .type c.ty.index _ (Arena.nodeIff.mp found).2
    exact ⟨one, membersOpensOne found one⟩
  · intro call result b r s i j x y allowed ends left filled right other
    have apart : y.scope ≠ x.scope := by
      intro same
      obtain ⟨rfl, rfl⟩ := housed.once right left same
      exact other rfl
    obtain ⟨owns, kept⟩ :=
      ends.fillsOne filled housed (List.mem_of_getElem? right) apart
    exact ⟨by rw [owns]; exact right, kept⟩

def World.branched : World :=
  (((empty.grow .cxx).act 0 .newTopLevel).act 0
    (.putDirective ⟨.topLevel, ⟨0, 0⟩⟩ .topLevel rfl (.conditional (.isDefined "A")))).act 0
    (.grow (.elseOfConditional .topLevel ⟨⟨0, 0⟩⟩))

theorem World.branchedReachable : branched.Reachable .strict := by
  refine .act (.act (.act (Reachable.start.grow .cxx) ?_) ?_) ?_
  all_goals exact allowsHeld (by decide) rfl (by decide)

theorem branchesApart :
    ∃ a answer b, World.branched.session.arenas[0]? = some a ∧
      a.bodiesOf ⟨.directive, 0, 0⟩ = [⟨⟨0, 1⟩, .topLevel⟩, ⟨⟨0, 2⟩, .topLevel⟩] ∧
      (Call.putAny ⟨.topLevel, ⟨0, 2⟩⟩ (.raw "int x;")).perform.run a = .ok answer b ∧
      b.node (⟨0, 1⟩ : ScopeRef) = .ok ⟨.topLevel, []⟩ := by
  obtain ⟨a, here⟩ : ∃ a, World.branched.session.arenas[0]? = some a := ⟨_, rfl⟩
  have parts : a.bodiesOf ⟨.directive, 0, 0⟩ = [⟨⟨0, 1⟩, .topLevel⟩, ⟨⟨0, 2⟩, .topLevel⟩] := by
    cases here
    rfl
  have empty : a.node (⟨0, 1⟩ : ScopeRef) = .ok ⟨.topLevel, []⟩ := by
    cases here
    rfl
  obtain ⟨answer, b, ran⟩ :
      ∃ answer b, (Call.putAny ⟨.topLevel, ⟨0, 2⟩⟩ (.raw "int x;")).perform.run a = .ok answer b := by
    cases here
    exact ⟨_, _, rfl⟩
  obtain ⟨_, _, _, apart⟩ := ownedScopesApart World.branchedReachable here
  have kept := apart _ (.ok answer) b ⟨.directive, 0, 0⟩ ⟨.directive, 0, 0⟩ 1 0 ⟨⟨0, 2⟩, .topLevel⟩ ⟨⟨0, 1⟩, .topLevel⟩
    (World.allowsHeld (by decide) rfl (by decide)) ran (by rw [parts]; rfl) rfl (by rw [parts]; rfl) (by decide)
  exact ⟨a, answer, b, here, parts, ran, kept.2.trans empty⟩

end CSource
