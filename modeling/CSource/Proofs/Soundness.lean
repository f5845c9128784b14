import CSource.Proofs.World

/-!
Every reachable world is sound: the handles that a client can use name nodes, and so does every stored reference.
From this follow two principles: what every change of an arena keeps holds of every arena that can be reached, and
is kept by every run.
-/

namespace CSource

variable {p : Policy} {given : Slot → Prop} {a b : Arena} {σ : Session}

/-- What is established of every handle that a client can use. -/
def Session.Vouches (p : Policy) (σ : Session) (i : Issued) : Prop :=
  i.Coherent ∧ ∀ s ∈ i.slots, σ.Keeps p s

theorem Session.Vouches.parts {i j : Issued} (vouches : σ.Vouches p i) (mem : j ∈ i.parts) : σ.Vouches p j := by
  obtain ⟨coherent, keeps⟩ := vouches
  cases i with
  | node c h => contradiction
  | typed r h =>
    cases List.mem_singleton.mp mem
    exact ⟨trivial, List.forall_mem_singleton.mpr (keeps _ (List.mem_singleton_self _)).plain⟩
  | place q =>
    cases List.mem_singleton.mp mem
    exact ⟨trivial, List.forall_mem_singleton.mpr (keeps _ (List.mem_singleton_self _)).plain⟩
  | aggregate c =>
    have both := List.forall_mem_cons.mp keeps
    rcases List.mem_cons.mp mem with rfl | later
    · exact ⟨trivial, List.forall_mem_singleton.mpr both.1.plain⟩
    · cases List.mem_singleton.mp later
      exact ⟨trivial, both.2⟩
  | enumeration r =>
    have both := List.forall_mem_cons.mp keeps
    rcases List.mem_cons.mp mem with rfl | later
    · exact ⟨trivial, List.forall_mem_singleton.mpr both.1.plain⟩
    · cases List.mem_singleton.mp later
      exact ⟨trivial, both.2⟩
  | templated template inner =>
    have both := List.forall_mem_cons.mp keeps
    rcases List.mem_cons.mp mem with rfl | later
    · exact ⟨trivial, List.forall_mem_singleton.mpr both.1⟩
    · cases List.mem_singleton.mp later
      exact ⟨coherent, both.2⟩

theorem World.Sound.holds {w : World} (sound : w.Sound p) {i : Issued} (holds : w.Holds p i) :
    w.session.Vouches p i := by
  induction holds with
  | issued mem => exact sound.held _ mem
  | part holder mem ih => exact ih.parts mem
  | recast kind allowed holder ih =>
    have loose : p.trusts (.place kind) = false := by simp [Policy.trusts, allowed]
    exact ⟨trivial, List.forall_mem_singleton.mpr ((ih.2 _ (List.mem_singleton_self _)).untrusted loose)⟩

/-- What the policy lets an arena be given by a call: references that come with the call's handles, and which are
kept by the session. -/
def World.Given (p : Policy) (w : World) (call : Call) (s : Slot) : Prop :=
  (∃ t ∈ slotsOf call.handles, s.ref = t.ref) ∧ w.session.Keeps p s

/-- How a call ends: the arena has changed, and a client may use every handle of the answer. -/
structure Outcome (p : Policy) (given : Slot → Prop) (a : Arena) (result : Except Misuse Answer)
    (b : Arena) : Prop where
  changes : Changes given a b
  answered : ∀ i ∈ issuedBy result, i.Coherent ∧ ∀ s ∈ i.slots, Known given b s ∨ (s.Own b ∧ b.Keeps p s)

def Ends (act : Build Answer) (a : Arena) : Except Misuse Answer → Arena → Prop
  | .ok answer, b => act.run a = .ok answer b
  | .error cause, b => act.run a = .error cause b

theorem Session.stepCases {n : Nat} {call : Call} {result : Except Misuse Answer} {after : Session}
    (ran : σ.step n call = some (result, after)) :
    ∃ a b, σ.arenas[n]? = some a ∧ after = ⟨σ.arenas.setIfInBounds n b⟩ ∧ Ends call.perform a result b := by
  unfold Session.step Session.run at ran
  obtain ⟨a, here, ran⟩ := Option.map_eq_some_iff.mp ran
  cases performed : call.perform.run a with
  | ok answer b =>
    rw [performed] at ran
    cases ran
    exact ⟨a, b, here, rfl, performed⟩
  | error cause b =>
    rw [performed] at ran
    cases ran
    exact ⟨a, b, here, rfl, performed⟩

theorem LateAccount.outcome {act : Build Answer} {args : List Slot} {result : Except Misuse Answer}
    (account : LateAccount given a act args (Answered given)) (ends : Ends act a result b) :
    Outcome p given a result b := by
  unfold LateAccount at account
  cases result with
  | ok answer =>
    rw [show act.run a = .ok answer b from ends] at account
    refine ⟨account.1, fun i mem => ?_⟩
    obtain ⟨coherent, known⟩ := account.2.2 i mem
    exact ⟨coherent, fun s mem => .inl (known s mem)⟩
  | error cause =>
    rw [show act.run a = .error cause b from ends] at account
    exact ⟨account, nofun⟩

theorem looseOutcome {use : PlaceKind} {kind : ScopeKind} {result : Except Misuse Answer}
    (known : ∀ s ∈ kind.slots, given s) (loose : p.looseScopes = true)
    (ends : Ends (Call.looseScope use kind).perform a result b) : Outcome p given a result b := by
  have account := Call.looseAccount (a := a) known
  cases result with
  | ok answer =>
    cases ends
    refine ⟨account.1.changes, List.forall_mem_singleton.mpr ⟨trivial, ?_⟩⟩
    refine List.forall_mem_singleton.mpr (.inr ⟨account.2.2.1, _, account.2.2.2, ?_, ?_⟩)
    · simp [Place.slot, Handle.as, Policy.trusts, loose]
    · simp [loose]
  | error cause => cases ends

section Call

variable {w : World} {n : Nat} {call : Call}

theorem World.Sound.faithful (sound : w.Sound p) (here : w.session.arenas[n]? = some a)
    (keeps : ∀ s, given s → w.session.Keeps p s) : Faithful given a := by
  intro s issued own
  obtain ⟨a', found, m, present, accepted, _⟩ := keeps s issued
  have same : s.ref.arena = n := own.trans (sound.numbered n a here)
  rw [same, here] at found
  cases Option.some.inj found
  exact ⟨m, present, fun r isRole => accepted (by rw [isRole]; rfl)⟩

theorem World.Sound.vouched (sound : w.Sound p) (allowed : w.Allows p n call) :
    ∀ i ∈ call.handles, w.session.Vouches p i :=
  fun i mem => sound.holds (allowed.held i mem)

theorem World.Sound.issued (sound : w.Sound p) (allowed : w.Allows p n call) :
    ∀ s ∈ slotsOf call.handles, w.Given p call s := by
  intro s mem
  obtain ⟨i, listed, inside⟩ := List.mem_flatMap.mp mem
  exact ⟨⟨s, mem, rfl⟩, (sound.vouched allowed i listed).2 s inside⟩

theorem World.Sound.account (sound : w.Sound p) (allowed : w.Allows p n call)
    (here : w.session.arenas[n]? = some a) (tight : call.isLoose = false) :
    LateAccount (w.Given p call) a call.perform (slotsOf call.handed) (Answered (w.Given p call)) :=
  call.lateAccount (sound.faithful here fun _ given => given.2) (sound.issued allowed)
    (fun i mem => (sound.vouched allowed i mem).1) tight

/-- A refused call that was not hasty, or that fills a scope of its own arena, has stored nodes and nothing else. -/
theorem World.Sound.refused (sound : w.Sound p) (allowed : w.Allows p n call) (here : w.session.arenas[n]? = some a)
    {cause : Misuse} (ran : call.perform.run a = .error cause b)
    (steady : call.isHasty = true → ∀ scope, call.filled? = some scope → scope.arena = a.number) :
    Extends (w.Given p call) a b := by
  cases tight : call.isLoose with
  | true => cases call <;> contradiction
  | false =>
    have account := call.account (sound.faithful here fun _ given => given.2) (sound.issued allowed)
      (fun i mem => (sound.vouched allowed i mem).1) tight steady
    unfold Account at account
    rwa [ran] at account

theorem World.Sound.outcome (sound : w.Sound p) (allowed : w.Allows p n call)
    (here : w.session.arenas[n]? = some a) {result : Except Misuse Answer} (ends : Ends call.perform a result b) :
    Outcome p (w.Given p call) a result b := by
  cases tight : call.isLoose with
  | false => exact (sound.account allowed here tight).outcome ends
  | true =>
    cases loose : p.looseScopes with
    | false =>
      have := allowed.tight loose
      simp_all
    | true =>
      cases call <;> try contradiction
      rename_i use kind
      refine looseOutcome (fun s mem => ?_) loose ends
      obtain ⟨parent, isParent, rfl⟩ := List.mem_map.mp mem
      have listed : parent.plain ∈ slotsOf (Call.looseScope use kind).handles :=
        List.mem_flatMap.mpr ⟨.node .type parent, List.mem_map_of_mem isParent, List.mem_singleton_self _⟩
      have untrusted : p.trusts .aggregate = false := by simp [Policy.trusts, loose]
      exact ⟨⟨_, listed, rfl⟩, (sound.issued allowed _ listed).2.untrusted untrusted⟩

theorem Session.Keeps.later (here : σ.arenas[n]? = some a) (changes : Changes given a b) {s : Slot}
    (keeps : σ.Keeps p s) : Session.Keeps p ⟨σ.arenas.setIfInBounds n b⟩ s := by
  obtain ⟨c, found, keeps⟩ := keeps
  by_cases same : n = s.ref.arena
  · rw [← same, here] at found
    cases Option.some.inj found
    have inside := (Array.getElem?_eq_some_iff.mp here).1
    exact ⟨b, by simp [← same, inside], changes.keepsPromise keeps⟩
  · exact ⟨c, by rw [Array.getElem?_setIfInBounds_ne same]; exact found, keeps⟩

theorem Session.afterForall {P : Nat → Arena → Prop} (changed : P n b)
    (others : ∀ m c, σ.arenas[m]? = some c → P m c) :
    ∀ m c, (σ.arenas.setIfInBounds n b)[m]? = some c → P m c := by
  intro m c found
  rw [Array.getElem?_setIfInBounds] at found
  split at found
  · rename_i same
    split at found <;> try contradiction
    cases Option.some.inj found
    exact same ▸ changed
  · exact others m c found

theorem Session.newForall {P : Nat → Arena → Prop} {d : Dialect} (new : P σ.arenas.size (.new σ.arenas.size d))
    (others : ∀ m c, σ.arenas[m]? = some c → P m c) : ∀ m c, (σ.newArena d).2.arenas[m]? = some c → P m c := by
  intro m c found
  rw [Session.newArena, Array.getElem?_push] at found
  split at found
  · rename_i last
    cases Option.some.inj found
    exact last ▸ new
  · exact others m c found

theorem World.Sound.afterCall (sound : w.Sound p) (allowed : w.Allows p n call)
    (here : w.session.arenas[n]? = some a) {result : Except Misuse Answer}
    (outcome : Outcome p (w.Given p call) a result b) :
    World.Sound p ⟨⟨w.session.arenas.setIfInBounds n b⟩, w.held ++ issuedBy result⟩ := by
  have number : b.number = n := outcome.changes.number.trans (sound.numbered n a here)
  have inside := (Array.getElem?_eq_some_iff.mp here).1
  have now : (w.session.arenas.setIfInBounds n b)[n]? = some b := by simp [inside]
  have later {s : Slot} (keeps : w.session.Keeps p s) :
      Session.Keeps p ⟨w.session.arenas.setIfInBounds n b⟩ s := keeps.later here outcome.changes
  have ofOwn {s : Slot} (own : s.Own b) (keeps : b.Keeps p s) :
      Session.Keeps p ⟨w.session.arenas.setIfInBounds n b⟩ s :=
    ⟨b, by rw [show s.ref.arena = n from own.trans number]; exact now, keeps⟩
  have ofChange {s : Slot} (source : a.Stores s ∨ w.Given p call s ∨ b.Has s) :
      Session.Keeps p ⟨w.session.arenas.setIfInBounds n b⟩ s := by
    rcases source with stored | given | has
    · exact later (sound.stored n a here s stored).1
    · exact later given.2
    · exact ofOwn has.own has.keeps
  refine ⟨?_, ?_, ?_, ?_⟩
  · exact Session.afterForall number sound.numbered
  · refine Session.afterForall ?_ sound.void
    have same : b.void = a.void := by simp [Arena.void, outcome.changes.number]
    rw [same]
    exact outcome.changes.keepsHas (sound.void n a here)
  · refine Session.afterForall (fun s stored => ?_) fun m c found s stored => ?_
    · have source := outcome.changes.stores stored
      refine ⟨ofChange source, fun closed => ?_⟩
      rcases source with stored | ⟨⟨t, listed, same⟩, _⟩ | has
      · exact ((sound.stored n a here s stored).2 closed).trans outcome.changes.number.symm
      · rw [Slot.Own, same, allowed.own closed t listed, number]
      · exact has.own
    · obtain ⟨keeps, own⟩ := sound.stored m c found s stored
      exact ⟨later keeps, own⟩
  · intro i mem
    rcases List.mem_append.mp mem with old | new
    · obtain ⟨coherent, keeps⟩ := sound.held i old
      exact ⟨coherent, fun s mem => later (keeps s mem)⟩
    · obtain ⟨coherent, known⟩ := outcome.answered i new
      refine ⟨coherent, fun s mem => ?_⟩
      rcases known s mem with known | ⟨own, keeps⟩
      · exact ofChange (outcome.changes.known known)
      · exact ofOwn own keeps

end Call

theorem Arena.newStores {n : Nat} {d : Dialect} {s : Slot} : ¬(Arena.new n d).Stores s := by
  intro stored
  cases stored with
  | @node c i m found mem =>
    cases c with
    | type =>
      cases i with
      | zero =>
        cases Option.some.inj found
        contradiction
      | succ i => simp [Arena.nodes, Arena.new] at found
    | _ => simp [Arena.nodes, Arena.new] at found
  | @table t e found mem => cases t <;> contradiction
  | comment found same => contradiction

theorem World.Sound.afterNewArena {w : World} (sound : w.Sound p) (d : Dialect) :
    World.Sound p ⟨(w.session.newArena d).2, w.held⟩ := by
  have later {s : Slot} (keeps : w.session.Keeps p s) : (w.session.newArena d).2.Keeps p s := by
    obtain ⟨a, found, keeps⟩ := keeps
    have inside := (Array.getElem?_eq_some_iff.mp found).1
    refine ⟨a, ?_, keeps⟩
    rw [Session.newArena, Array.getElem?_push, if_neg (Nat.ne_of_lt inside)]
    exact found
  refine ⟨Session.newForall rfl sound.numbered, Session.newForall ⟨rfl, .void, rfl, rfl, nofun⟩ sound.void,
    Session.newForall ?_ ?_, ?_⟩
  · exact fun s stored => absurd stored Arena.newStores
  · intro n a here s stored
    obtain ⟨keeps, own⟩ := sound.stored n a here s stored
    exact ⟨later keeps, own⟩
  · intro i mem
    obtain ⟨coherent, keeps⟩ := sound.held i mem
    exact ⟨coherent, fun s mem => later (keeps s mem)⟩

theorem Except.mapOk {ε α β : Type} {f : α → β} {x : Except ε α} {y : β} (mapped : f <$> x = .ok y) :
    ∃ z, x = .ok z ∧ f z = y := by
  cases x with
  | error cause => contradiction
  | ok z => exact ⟨z, rfl, Except.ok.inj mapped⟩

section Ask

variable {w : World} {n : Nat}

theorem World.Sound.storedVouches (sound : w.Sound p) (here : w.session.arenas[n]? = some a) {s : Slot}
    (stored : a.Stores s) : w.session.Vouches p s.ref.issued :=
  ⟨trivial, List.forall_mem_singleton.mpr (sound.stored n a here s stored).1.plain⟩

theorem World.Sound.placeVouches (sound : w.Sound p) (here : w.session.arenas[n]? = some a) {q : Place}
    (stored : a.Stores q.slot) : ∀ i ∈ (Answer.place q).issued, w.session.Vouches p i :=
  List.forall_mem_singleton.mpr
    ⟨trivial, List.forall_mem_singleton.mpr (sound.stored n a here q.slot stored).1⟩

theorem bodyStored {c : Category} {h : Handle c} {f : Node c → Except Misuse Place} {q : Place}
    (read : (a.node h >>= f) = .ok q) (inside : ∀ m, a.node h = .ok m → f m = .ok q → q.slot ∈ Node.slots c m) :
    a.Stores q.slot := by
  cases here : a.node h with
  | error cause =>
    rw [here] at read
    contradiction
  | ok m =>
    rw [here] at read
    exact .node (Arena.nodeIff.mp here).2 (inside m here read)

theorem World.Sound.answers (sound : w.Sound p) (here : w.session.arenas[n]? = some a) {q : Query}
    (held : ∀ i ∈ q.handles, w.Holds p i) {answer : Answer} (answered : a.answer q = .ok answer) :
    ∀ i ∈ answer.issued, w.session.Vouches p i := by
  have nodeStores {c : Category} {h : Handle c} {m : Node c} (found : a.node h = .ok m) {s : Slot}
      (mem : s ∈ Node.slots c m) : a.Stores s := .node (Arena.nodeIff.mp found).2 mem
  cases q
  case void =>
    cases answered
    have same : a.void.arena = n := sound.numbered n a here
    refine List.forall_mem_singleton.mpr ⟨trivial, List.forall_mem_singleton.mpr ?_⟩
    exact ⟨a, by rw [show a.void.plain.ref.arena = n from same]; exact here, (sound.void n a here).keeps⟩
  case node r =>
    obtain ⟨m, found, rfl⟩ := Except.mapOk answered
    exact List.forall_mem_map.mpr fun s mem => sound.storedVouches here (nodeStores found mem)
  case scopeKind scope =>
    obtain ⟨m, found, rfl⟩ := Except.mapOk answered
    refine List.forall_mem_map.mpr fun s mem => sound.storedVouches here (nodeStores found ?_)
    exact List.mem_append_left _ mem
  case scopeEntries scope =>
    obtain ⟨m, found, rfl⟩ := Except.mapOk answered
    refine List.forall_mem_map.mpr fun entry mem => ?_
    have stored : a.Stores entry.slot := nodeStores found (List.mem_append_right _ (List.mem_map_of_mem mem))
    cases entry <;> exact sound.storedVouches here stored
  case openPlace q =>
    obtain ⟨r, found, rfl⟩ := Except.mapOk answered
    unfold Arena.openPlace at found
    split at found <;> try contradiction
    cases Except.ok.inj found
    exact List.forall_mem_singleton.mpr (sound.holds (held _ (List.mem_singleton_self _)))
  case conditionalBody branch c =>
    obtain ⟨r, found, rfl⟩ := Except.mapOk answered
    have selects : a.Selects c := by
      have kept := (sound.holds (held _ (List.mem_singleton_self _))).2 _ (List.mem_singleton_self _)
      exact (sound.faithful here fun _ => id).selects kept
    refine sound.placeVouches here (bodyStored found fun m known ok => ?_)
    cases m <;> try contradiction
    rename_i data
    cases Except.ok.inj ok
    simp [Node.slots, DirectiveNode.slots, Conditional.slots, Place.slot, selects data known]
  case lambdaBody | ifBody | caseBody | loopBody | tryBody | macroScope | namespaceBody =>
    obtain ⟨r, found, rfl⟩ := Except.mapOk answered
    refine sound.placeVouches here (bodyStored found fun m _ ok => ?_)
    cases m <;> try contradiction
    all_goals
      cases Except.ok.inj ok
      simp [Node.slots, ExprNode.slots, StmtNode.slots, DirectiveNode.slots, Place.slot]
  case codeOfEntries scope =>
    cases found : a.node scope with
    | error cause => simp [Arena.answer, found, bind, Except.bind] at answered
    | ok m =>
      simp only [Arena.answer, found, bind, Except.bind] at answered
      obtain ⟨_, _, rfl⟩ := Except.mapOk answered
      exact List.forall_mem_nil _
  case stats | dialect | rawTypeNames | comments =>
    cases answered
    exact List.forall_mem_nil _
  -- every other answer is a text, a name or a flag
  all_goals
    obtain ⟨_, _, rfl⟩ := Except.mapOk answered
    exact List.forall_mem_nil _

theorem World.Sound.afterAsk (sound : w.Sound p) {q : Query} {result : Except Misuse Answer}
    (held : ∀ i ∈ q.handles, w.Holds p i) (ran : w.session.ask n q = some result) :
    World.Sound p ⟨w.session, w.held ++ issuedBy result⟩ := by
  obtain ⟨a, here, answered⟩ := Option.map_eq_some_iff.mp ran
  refine ⟨sound.numbered, sound.void, sound.stored, fun i mem => ?_⟩
  rcases List.mem_append.mp mem with old | new
  · exact sound.held i old
  · cases result with
    | error cause => contradiction
    | ok answer => exact sound.answers here held answered i new

end Ask

namespace World

theorem soundEmpty : empty.Sound p := ⟨by simp [empty, Session.empty], by simp [empty, Session.empty],
  by simp [empty, Session.empty], nofun⟩

theorem Sound.step {w v : World} (sound : w.Sound p) (step : Step p w v) : v.Sound p := by
  cases step with
  | newArena d => exact sound.afterNewArena d
  | ask held ran => exact sound.afterAsk held ran
  | call allowed ran =>
    obtain ⟨a, b, here, rfl, ends⟩ := Session.stepCases ran
    exact sound.afterCall allowed here (sound.outcome allowed here ends)

theorem Reachable.sound {w : World} (reachable : w.Reachable p) : w.Sound p := by
  induction reachable with
  | refl => exact soundEmpty
  | tail before step ih => exact ih.step step

theorem Sound.run {w v : World} (sound : w.Sound p) (run : Run p w v) : v.Sound p := by
  induction run with
  | refl => exact sound
  | tail before step ih => exact ih.step step

theorem Reachable.run {w v : World} (reachable : w.Reachable p) (run : Run p w v) : v.Reachable p :=
  Relation.ReflTransGen.trans reachable run

end World

def Arena.Settled (a : Arena) (r : NodeRef) : Prop :=
  r.arena = a.number → r.index < (a.nodes r.category).size

theorem World.Sound.settled {w : World} {n : Nat} (sound : w.Sound p) (here : w.session.arenas[n]? = some a) {s : Slot}
    (keeps : w.session.Keeps p s) : a.Settled s.ref := by
  intro own
  obtain ⟨a', found, m, present, _⟩ := keeps
  have same : s.ref.arena = n := own.trans (sound.numbered n a here)
  rw [same, here] at found
  cases Option.some.inj found
  exact (Array.getElem?_eq_some_iff.mp present).1

/-- What a change may rely on for the references that were given to the call. -/
structure Trusted (p : Policy) (given : Slot → Prop) (a : Arena) : Prop where
  keeps : ∀ s, given s → s.Own a → a.Keeps p s
  own : p.foreign = false → ∀ s, given s → s.Own a

theorem Trusted.later (trusted : Trusted p given a) (change : Change given a b) : Trusted p given b where
  keeps s issued own := change.keepsPromise (trusted.keeps s issued (own.trans change.number))
  own closed s issued := (trusted.own closed s issued).trans change.number.symm

theorem Changes.induct {I : Arena → Prop}
    (step : ∀ {given a b}, Trusted p given a → Change given a b → I a → I b)
    (trusted : Trusted p given a) (changes : Changes given a b) (holds : I a) : I b := by
  have both : Trusted p given b ∧ I b := by
    induction changes with
    | refl => exact ⟨trusted, holds⟩
    | tail before change ih => exact ⟨ih.1.later change, step ih.1 change ih.2⟩
  exact both.2

namespace World

variable {I : Arena → Prop} {w v : World} {n : Nat}

theorem Sound.trusted (sound : w.Sound p) {call : Call} (allowed : w.Allows p n call)
    (here : w.session.arenas[n]? = some a) : Trusted p (w.Given p call) a where
  keeps s given own := by
    obtain ⟨_, c, found, keeps⟩ := given
    rw [show s.ref.arena = n from own.trans (sound.numbered n a here), here] at found
    cases Option.some.inj found
    exact keeps
  own closed s given := by
    obtain ⟨⟨t, listed, same⟩, _⟩ := given
    rw [Slot.Own, same, allowed.own closed t listed, sound.numbered n a here]

theorem Run.induct (step : ∀ {given a b}, Trusted p given a → Change given a b → I a → I b)
    (sound : w.Sound p) (run : Run p w v) (here : w.session.arenas[n]? = some a) (holds : I a) :
    ∃ b, v.session.arenas[n]? = some b ∧ I b := by
  induction run with
  | refl => exact ⟨a, here, holds⟩
  | tail before last ih =>
    obtain ⟨b, found, holds⟩ := ih
    have sound := sound.run before
    cases last with
    | newArena d =>
      have inside := (Array.getElem?_eq_some_iff.mp found).1
      refine ⟨b, ?_, holds⟩
      rw [Session.newArena, Array.getElem?_push, if_neg (Nat.ne_of_lt inside)]
      exact found
    | ask held ran => exact ⟨b, found, holds⟩
    | @call m call result after allowed ran =>
      obtain ⟨c, d, there, rfl, ends⟩ := Session.stepCases ran
      have changes := (sound.outcome allowed there ends).changes
      by_cases same : m = n
      · subst same
        cases Option.some.inj (there.symm.trans found)
        have inside := (Array.getElem?_eq_some_iff.mp found).1
        exact ⟨d, by simp [inside], changes.induct step (sound.trusted allowed there) holds⟩
      · exact ⟨b, by rw [Array.getElem?_setIfInBounds_ne same]; exact found, holds⟩

/-- What a new arena has and every allowed call keeps holds of every arena that can be reached. -/
theorem Reachable.inductCalls (new : ∀ n d, I (Arena.new n d))
    (kept : ∀ {w : World} {n : Nat} {call : Call} {a b : Arena} {result : Except Misuse Answer}, w.Sound p →
      w.Allows p n call → w.session.arenas[n]? = some a → Ends call.perform a result b → I a → I b)
    (reachable : w.Reachable p) : ∀ (n : Nat) (a : Arena), w.session.arenas[n]? = some a → I a := by
  induction reachable with
  | refl => simp [empty, Session.empty]
  | tail before last ih =>
    have sound := Reachable.sound before
    cases last with
    | newArena d => exact Session.newForall (new _ d) ih
    | ask held ran => exact ih
    | call allowed ran =>
      obtain ⟨a, b, here, rfl, ends⟩ := Session.stepCases ran
      exact Session.afterForall (kept sound allowed here ends (ih _ a here)) ih

theorem Reachable.induct (new : ∀ n d, I (Arena.new n d))
    (step : ∀ {given a b}, Trusted p given a → Change given a b → I a → I b) (reachable : w.Reachable p) :
    ∀ (n : Nat) (a : Arena), w.session.arenas[n]? = some a → I a := by
  refine reachable.inductCalls new fun sound allowed here ends holds => ?_
  exact (sound.outcome allowed here ends).changes.induct step (sound.trusted allowed here) holds

end World

end CSource
