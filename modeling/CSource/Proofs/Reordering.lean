import CSource.Proofs.Factories
import CSource.Proofs.Interning

/-!
Factories in any order. A factory that has run leaves the arena with more nodes, but with the same nodes as before
among them, so another factory makes the same things before it and after it.
-/

namespace CSource

open Build

/-- Handles from the first free one on are moved to the first free one of the other arena. -/
def Arena.shift (a b : Arena) : Renaming where
  apply c h :=
    if h.arena = a.number ∧ (a.nodes c).size ≤ h.index then
      ⟨h.arena, h.index - (a.nodes c).size + (b.nodes c).size⟩
    else h

def Arena.AllSettled (a : Arena) : Prop := ∀ s, a.Stores s → a.Settled s.ref

section Shift

variable {a b : Arena} {c : Category} {h : Handle c} {r : NodeRef}

theorem Arena.Settled.fixed (settled : a.Settled r) : a.shift b r.handle = r.handle :=
  if_neg fun ⟨own, beyond⟩ => absurd (settled own) (Nat.not_lt.mpr beyond)

theorem Arena.shifted (own : h.arena = a.number) (beyond : (a.nodes c).size ≤ h.index) :
    a.shift b h = ⟨h.arena, h.index - (a.nodes c).size + (b.nodes c).size⟩ :=
  if_pos ⟨own, beyond⟩

theorem Arena.beyond (loose : ¬a.Settled h.ref) : h.arena = a.number ∧ (a.nodes c).size ≤ h.index := by
  obtain ⟨own, beyond⟩ := Classical.not_imp.mp loose
  exact ⟨own, Nat.not_lt.mp beyond⟩

theorem Arena.AllSettled.comments (settled : a.AllSettled) (loose : ¬a.Settled r) : a.commentsOf r = none := by
  cases found : a.commentsOf r with
  | none => rfl
  | some comments =>
    obtain ⟨before, after, whole, _⟩ := List.lookup_eq_some_iff.mp found
    have listed : (r, comments) ∈ a.comments := by simp [whole]
    exact absurd (settled _ (.comment listed rfl)) loose

theorem Frame.unshift (frame : Frame [] [] a b) (h : Handle c) : b.shift a (a.shift b h) = h := by
  have sizes := frame.sizes c
  by_cases settled : a.Settled h.ref
  · have later : b.Settled h.ref := fun own => Nat.lt_of_lt_of_le (settled (own.trans frame.number)) sizes
    have fixed : a.shift b h = h := settled.fixed
    rw [fixed]
    exact later.fixed
  · obtain ⟨own, beyond⟩ := Arena.beyond settled
    have ahead : (b.nodes c).size ≤ h.index - (a.nodes c).size + (b.nodes c).size := Nat.le_add_left ..
    have index : h.index - (a.nodes c).size + (b.nodes c).size - (b.nodes c).size + (a.nodes c).size = h.index := by
      omega
    have back : b.shift a (⟨h.arena, h.index - (a.nodes c).size + (b.nodes c).size⟩ : Handle c) = ⟨h.arena, _⟩ :=
      Arena.shifted (own.trans frame.number.symm) ahead
    rw [Arena.shifted own beyond, back, index]

theorem Frame.parallel (frame : Frame [] [] a b) (settled : a.AllSettled) :
    Parallel (a.shift b) (b.shift a) a b where
  back := congrArg Renaming.mk (funext fun _ => funext fun h => frame.unshift h)
  dialect := frame.dialect
  node {c} h := by
    by_cases here : a.Settled h.ref
    · have fixed : a.shift b h = h := here.fixed
      rw [fixed]
      by_cases own : h.arena = a.number
      · obtain ⟨n, found⟩ : ∃ n, a.node h = .ok n := Arena.Present.node ⟨own, here own⟩
        have whole : Node.rename (a.shift b) c n = n :=
          Node.fixed fun s mem => (settled s (.node (Arena.nodeIff.mp found).2 mem)).fixed
        rw [frame.node List.not_mem_nil found, found]
        exact congrArg Except.ok whole.symm
      · rw [Arena.nodeForeign own, Arena.nodeForeign (frame.number ▸ own)]
        rfl
    · obtain ⟨own, beyond⟩ := Arena.beyond here
      rw [Arena.nodeBeyond own beyond, Arena.shifted own beyond]
      exact Arena.nodeBeyond (own.trans frame.number.symm) (Nat.le_add_left ..)
  comments r := by
    by_cases here : a.Settled r
    · have fixed : r.rename (a.shift b) = r := congrArg Handle.ref here.fixed
      rw [fixed]
      exact frame.comments List.not_mem_nil
    · obtain ⟨own, beyond⟩ := Arena.beyond (h := r.handle) here
      have loose : ¬a.Settled (r.rename (a.shift b)) := by
        unfold NodeRef.rename
        rw [Arena.shifted own beyond]
        exact fun within => absurd (within own) (Nat.not_lt.mpr (Nat.le_trans (frame.sizes _) (Nat.le_add_left ..)))
      rw [frame.comments List.not_mem_nil, settled.comments here, settled.comments loose]
  number := frame.number
  keeps {c} h := by
    show (if _ then _ else _ : Handle c).arena = _
    split <;> rfl
  next c k := by
    rw [Arena.shifted rfl (Nat.le_add_right ..), frame.number]
    have index : (a.nodes c).size + k - (a.nodes c).size + (b.nodes c).size = (b.nodes c).size + k := by omega
    simp only [index]

end Shift

def Build.result {α : Type} (m : Build α) (a : Arena) : Except Misuse α :=
  match m.run a with
  | .ok x _ => .ok x
  | .error cause _ => .error cause

namespace Arena

def textOf (a : Arena) (r : NodeRef) : Option String := (a.render r).toOption

def texts (a : Arena) : Answer → List (Option String)
  | .handle i => i.slots.map fun s => a.textOf s.ref
  | _ => []

/-- What a call has made, as text, or why it was refused. -/
def told (a : Arena) (result : Except Misuse Answer) : Except Misuse (List (Option String)) := result.map a.texts

theorem textOfSome {a : Arena} {r : NodeRef} {text : String} : a.textOf r = some text ↔ a.render r = .ok text := by
  unfold textOf
  cases a.render r <;> simp [Except.toOption]

end Arena

section Copies

variable {f g : Renaming} {a b : Arena}

theorem Linked.textOf (linked : Linked f g a b) (r : NodeRef) : b.textOf (r.rename f) = a.textOf r := by
  refine Option.ext fun text => ?_
  rw [Arena.textOfSome, Arena.textOfSome]
  exact linked.text.symm

theorem Frame.textOf (frame : Frame [] [] a b) (settled : a.AllSettled) {r : NodeRef} (here : a.Settled r) :
    b.textOf r = a.textOf r := by
  have fixed : r.rename (a.shift b) = r := congrArg Handle.ref here.fixed
  rw [← (frame.parallel settled).textOf, fixed]

theorem Issued.slotsRename (i : Issued) : (i.rename f).slots.map (·.ref) = i.slots.map (·.ref.rename f) := by
  induction i with
  | templated template inner ih => exact congrArg (_ :: ·) ih
  | _ => rfl

theorem Linked.texts (linked : Linked f g a b) (answer : Answer) : b.texts (answer.rename f) = a.texts answer := by
  cases answer with
  | handle i =>
    have copies := congrArg (List.map b.textOf) (i.slotsRename (f := f))
    rw [List.map_map, List.map_map] at copies
    exact copies.trans (List.map_congr_left fun s _ => linked.textOf s.ref)
  | _ => rfl

theorem Alike.told {m m' : Build Answer} (alike : Alike f g (·.rename f) m m') (parallel : Parallel f g a b) :
    (m'.after b).told (m'.result b) = (m.after a).told (m.result a) := by
  unfold Build.after Build.result
  rcases alike.outcomes parallel with ⟨answer, a', b', left, right, after⟩ | ⟨cause, a', b', left, right⟩
  · rw [left, right]
    exact congrArg Except.ok (after.texts answer)
  · rw [left, right]
    rfl

end Copies

section Shared

open Render

structure Arena.Regular (a : Arena) : Prop where
  settled : a.AllSettled
  consed : a.Consed

variable {a b : Arena} {t : Table} {key : t.Key}

theorem sameTypeText {ty ty' : TypeRef} {n : TypeNode} (found : a.node ty = .ok n) (found' : a.node ty' = .ok n)
    (quiet : a.commentsOf ty.ref = none) (quiet' : a.commentsOf ty'.ref = none) :
    a.textOf ty.ref = a.textOf ty'.ref := by
  have whole : a.segments ty.ref = a.segments ty'.ref := by
    unfold Arena.segments Arena.depthBound segmentsWithin annotate
    rw [Arena.piecesOf found, Arena.piecesOf found', quiet, quiet']
    rfl
  unfold Arena.textOf Arena.render
  rw [whole]

theorem resemblesExtend : (a.push .type (t.interning.node key)).Resembles (t.extend key a) where
  number := by simp
  dialect := by simp
  nodes := t.nodesExtend key a
  comments := by simp

theorem resemblesRefl : a.Resembles a := ⟨rfl, rfl, fun _ => rfl, rfl⟩

theorem laterText {ty : TypeRef} (frame : Frame [] [] a b) (regular : a.Regular) (later : b.Regular)
    (miss : (t.entries a).lookup key = none) (listed : (key, ty) ∈ t.entries b) :
    b.textOf ty.ref = (b.push .type (t.interning.node key)).textOf (b.nextHandle .type).ref := by
  rw [later.consed.listed, Table.memShared] at listed
  have found : b.node ty = .ok (t.interning.node key) := Arena.nodeIff.mpr listed
  have settled : b.Settled ty.ref := fun _ => (Array.getElem?_eq_some_iff.mp listed.2).1
  have loose : ¬a.Settled ty.ref := by
    intro here
    have own : ty.arena = a.number := listed.1.trans frame.number
    obtain ⟨m, old⟩ : ∃ m, a.node ty = .ok m := Arena.Present.node ⟨own, here own⟩
    cases Except.ok.inj ((frame.node List.not_mem_nil old).symm.trans found)
    have before : (key, ty) ∈ t.entries a := by
      rw [regular.consed.listed, Table.memShared]
      exact Arena.nodeIff.mp old
    exact lookupListed before miss
  have free : ¬b.Settled (b.nextHandle .type).ref := fun within => Nat.lt_irrefl _ (within rfl)
  -- the text is that in an arena where the node is stored once more
  have more : Frame [] [] b (b.push .type (t.interning.node key)) := .push trivial
  rw [← more.textOf later.settled settled]
  refine sameTypeText (Arena.nodePushKeeps _ found) Arena.nodePushed ?_ ?_
  · have quiet := regular.settled.comments loose
    rw [← quiet, more.comments List.not_mem_nil, frame.comments List.not_mem_nil]
  · rw [more.comments List.not_mem_nil, later.settled.comments free]

theorem requestText (frame : Frame [] [] a b) (regular : a.Regular) (later : b.Regular)
    (fixes : Fixes (a.shift b) (t.interning.node key).slots) :
    ∃ ty a' ty' b', (t.request key).run a = .ok ty a' ∧ (t.request key).run b = .ok ty' b' ∧
      b'.textOf ty'.ref = a'.textOf ty.ref := by
  have parallel := frame.parallel regular.settled
  have stored := parallel.push (c := .type) (t.interning.node key)
  have node : Node.rename (a.shift b) .type (t.interning.node key) = t.interning.node key := TypeNode.fixed fixes
  rw [node] at stored
  rw [Table.runRequest, Table.runRequest]
  cases here : (t.entries a).lookup key with
  | some ty =>
    obtain ⟨rest, grown⟩ := frame.shared t
    have there : (t.entries b).lookup key = some ty := by rw [← grown, List.lookup_append, here]; rfl
    have listed := Table.entryOfLookup here
    rw [regular.consed.listed, Table.memShared] at listed
    have settled : a.Settled ty.ref := fun _ => (Array.getElem?_eq_some_iff.mp listed.2).1
    rw [there]
    exact ⟨ty, a, ty, b, rfl, rfl, frame.textOf regular.settled settled⟩
  | none =>
    -- a new type on the left can be an old one on the right, where the key was asked for in between
    cases there : (t.entries b).lookup key with
    | none =>
      refine ⟨_, _, _, _, rfl, rfl, ?_⟩
      have copied := (stored.resembles resemblesExtend resemblesExtend).textOf (a.nextHandle .type).ref
      rwa [refRename, parallel.nextHandle] at copied
    | some ty =>
      refine ⟨_, _, ty, b, rfl, rfl, ?_⟩
      have copied := (stored.resembles resemblesExtend resemblesRefl).textOf (a.nextHandle .type).ref
      rw [refRename, parallel.nextHandle] at copied
      exact (laterText frame regular later here (Table.entryOfLookup there)).trans copied

end Shared

section Guards

variable {a b : Arena}

def Guards (m : Build Unit) : Prop :=
  ∀ ⦃a b : Arena⦄, b.number = a.number → b.dialect = a.dialect →
    (m.run a = .ok () a ∧ m.run b = .ok () b) ∨ ∃ cause, m.run a = .error cause a ∧ m.run b = .error cause b

namespace Guards

variable {m k : Build Unit}

theorem pure : Guards (Pure.pure ()) := fun _ _ _ _ => .inl ⟨rfl, rfl⟩

theorem bind (first : Guards m) (rest : Guards k) : Guards (m >>= fun _ => k) := by
  intro a b number dialect
  rw [EStateM.run_bind, EStateM.run_bind]
  rcases first number dialect with ⟨left, right⟩ | ⟨cause, left, right⟩
  · rw [left, right]
    exact rest number dialect
  · rw [left, right]
    exact .inr ⟨cause, rfl, rfl⟩

theorem own {c : Category} (h : Handle c) : Guards (Build.own h) := by
  intro a b number _
  have same : b.owns h = a.owns h := by
    unfold Arena.owns
    rw [number]
  rw [runOwns, runOwns, same]
  cases a.owns h with
  | true => exact .inl ⟨rfl, rfl⟩
  | false => exact .inr ⟨_, rfl, rfl⟩

theorem ownEach {c : Category} (hs : List (Handle c)) : Guards (Build.ownEach hs) := by
  induction hs with
  | nil => exact pure
  | cons h hs ih => exact bind (own h) ih

theorem require (feature : Feature) : Guards (Build.require feature) := by
  intro a b _ dialect
  rw [runRequire, runRequire, dialect]
  by_cases same : a.dialect = feature.dialect
  · rw [if_pos same, if_pos same]
    exact .inl ⟨rfl, rfl⟩
  · rw [if_neg same, if_neg same]
    exact .inr ⟨_, rfl, rfl⟩

end Guards

theorem TypeCall.requests {call : TypeCall} (shared : call.isShared = true) :
    ∃ (m : Build Unit) (t : Table) (key : t.Key), Guards m ∧
      call.perform = Answer.type <$> (m >>= fun _ => t.request key) ∧
      (slotsOf (call.checked ++ call.unchecked) ⊇ (t.interning.node key).slots) := by
  cases call with
  | primitive prim => exact ⟨pure (), .raw, prim.spelling, .pure, by rw [pure_bind]; rfl, List.nil_subset _⟩
  | auto => exact ⟨require .autoType, .raw, "auto", .require _, rfl, List.nil_subset _⟩
  | raw spelling => exact ⟨pure (), .raw, spelling, .pure, by rw [pure_bind]; rfl, List.nil_subset _⟩
  | pointer ty => exact ⟨own ty, .pointer, ty, .own ty, rfl, List.Subset.refl _⟩
  | reference ty =>
    refine ⟨require .referenceType >>= fun _ => own ty, .reference, ty, .bind (.require _) (.own ty), ?_,
      List.Subset.refl _⟩
    rw [bind_assoc]
    rfl
  | array ty sizes =>
    refine ⟨own ty >>= fun _ => ownEach sizes, .array, (ty, sizes), .bind (.own ty) (.ownEach sizes), ?_, ?_⟩
    · rw [bind_assoc]
      rfl
    · simp [TypeCall.checked, TypeCall.unchecked, Table.interning, Interning.array, TypeNode.slots]
  | named d => exact ⟨own d, .named, d, .own d, rfl, List.Subset.refl _⟩
  | namedClass c => exact ⟨own c.decl, .named, c.decl, .own _, rfl, List.subset_cons_self ..⟩
  | namedEnum e => exact ⟨own e.decl, .named, e.decl, .own _, rfl, List.subset_cons_self ..⟩
  | _ => contradiction

/-- What a call makes if it is the only one, or why it is refused. -/
def Arena.alone (a : Arena) (call : Call) : Except Misuse (List (Option String)) :=
  (call.perform.after a).told (call.perform.result a)

theorem TypeCall.sharedAlone {call : TypeCall} (shared : call.isShared = true) (frame : Frame [] [] a b)
    (regular : a.Regular) (later : b.Regular) (fixes : Fixes (a.shift b) (slotsOf (call.checked ++ call.unchecked))) :
    b.alone (.type call) = a.alone (.type call) := by
  obtain ⟨m, t, key, guards, performs, given⟩ := call.requests shared
  obtain ⟨ty, a', ty', b', left, right, same⟩ := requestText frame regular later fun s mem => fixes s (given mem)
  have performed : (Call.type call).perform = Answer.type <$> (m >>= fun _ => t.request key) := performs
  unfold Arena.alone Build.after Build.result
  rw [performed, map_eq_pure_bind, EStateM.run_bind, EStateM.run_bind, EStateM.run_bind, EStateM.run_bind]
  rcases guards frame.number frame.dialect with ⟨first, second⟩ | ⟨cause, first, second⟩
  · rw [first, second]
    dsimp only
    rw [left, right]
    exact congrArg (Except.ok [·]) same
  · rw [first, second]
    rfl

theorem Call.sameAlone {call : Call} (factory : call.isFactory = true) (frame : Frame [] [] a b) (regular : a.Regular)
    (later : b.Regular) (settled : ∀ s ∈ slotsOf call.handles, a.Settled s.ref) : b.alone call = a.alone call := by
  have fixes : Fixes (a.shift b) (slotsOf call.handles) := fun s mem => (settled s mem).fixed
  cases shared : call.isShared with
  | false => exact (Call.alike factory shared fixes).told (frame.parallel regular.settled)
  | true =>
    cases call with
    | type call => exact call.sharedAlone shared frame regular later fixes
    | _ => contradiction

end Guards

namespace Arena

def afterAll (a : Arena) (calls : List Call) : Arena := calls.foldl (fun a call => call.perform.after a) a

def results (a : Arena) : List Call → List (Call × Except Misuse Answer)
  | [] => []
  | call :: calls => (call, call.perform.result a) :: (call.perform.after a).results calls

def produced (a : Arena) (calls : List Call) : List (Call × Except Misuse (List (Option String))) :=
  (a.results calls).map fun (call, result) => (call, (a.afterAll calls).told result)

end Arena

section Runs

variable {p : Policy} {w v : World} {n : Nat} {a b : Arena} {call : Call} {calls : List Call}

theorem World.actHere (here : w.session.arenas[n]? = some a) (call : Call) :
    (w.act n call).session.arenas[n]? = some (call.perform.after a) ∧
      (w.act n call).held = w.held ++ issuedBy (call.perform.result a) := by
  have inside := (Array.getElem?_eq_some_iff.mp here).1
  unfold World.act Session.step Session.run Build.after Build.result
  rw [here]
  cases ran : call.perform.run a <;> simp [ran, inside]

theorem World.Holds.later {i : Issued} (grown : w.held ⊆ v.held) (holds : w.Holds p i) : v.Holds p i := by
  induction holds with
  | issued mem => exact .issued (grown mem)
  | part _ mem ih => exact .part ih mem
  | recast kind allowed _ ih => exact .recast kind allowed ih

theorem World.Allows.later (grown : w.held ⊆ v.held) (allowed : w.Allows p n call) : v.Allows p n call :=
  ⟨fun i mem => (allowed.held i mem).later grown, allowed.tight, allowed.own⟩

theorem World.Reachable.regular (reachable : w.Reachable p) (here : w.session.arenas[n]? = some a) : a.Regular where
  settled s stored := reachable.sound.settled here (reachable.sound.stored n a here s stored).1
  consed := reachable.consed n a here

theorem Call.factoryFrame (factory : call.isFactory = true) (a : Arena) : Frame [] [] a (call.perform.after a) := by
  obtain ⟨unchanged, unremarked⟩ := Call.isFactoryIff.mp factory
  have confined := call.confined a rfl
  rwa [unchanged, unremarked] at confined

theorem Arena.framedAll (factories : ∀ call ∈ calls, call.isFactory = true) (a : Arena) :
    Frame [] [] a (a.afterAll calls) := by
  induction calls generalizing a with
  | nil => exact .refl
  | cons call calls ih =>
    obtain ⟨first, rest⟩ := List.forall_mem_cons.mp factories
    exact (Call.factoryFrame first a).trans (ih rest _)

theorem toldLater (frame : Frame [] [] a b) (regular : a.Regular) {result : Except Misuse Answer}
    (settled : ∀ i ∈ issuedBy result, ∀ s ∈ i.slots, a.Settled s.ref) : b.told result = a.told result := by
  cases result with
  | error cause => rfl
  | ok answer =>
    cases answer with
    | handle i =>
      refine congrArg Except.ok (List.map_congr_left fun s mem => frame.textOf regular.settled ?_)
      exact settled i (List.mem_singleton_self _) s mem
    | _ => rfl

theorem producedFrom (regular : a.Regular) (factories : ∀ call ∈ calls, call.isFactory = true)
    (settled : ∀ call ∈ calls, ∀ s ∈ slotsOf call.handles, a.Settled s.ref) (reachable : v.Reachable p)
    (here : v.session.arenas[n]? = some b) (allowed : ∀ call ∈ calls, v.Allows p n call) (frame : Frame [] [] a b) :
    b.produced calls = calls.map fun call => (call, a.alone call) := by
  -- the first arena stays where it is: every call is compared with what it does there
  induction calls generalizing v b with
  | nil => rfl
  | cons call calls ih =>
    obtain ⟨factory, factories⟩ := List.forall_mem_cons.mp factories
    obtain ⟨given, settled⟩ := List.forall_mem_cons.mp settled
    obtain ⟨now, allowed⟩ := List.forall_mem_cons.mp allowed
    obtain ⟨there, held⟩ := World.actHere here call
    have next := reachable.act now
    have grown : v.held ⊆ (v.act n call).held := by
      rw [held]
      exact List.subset_append_left ..
    have step := Call.factoryFrame factory b
    have rest := ih factories settled next there (fun other mem => (allowed other mem).later grown) (frame.trans step)
    have issued : ∀ i ∈ issuedBy (call.perform.result b), ∀ s ∈ i.slots, (call.perform.after b).Settled s.ref := by
      intro i mem s inside
      have kept := (next.sound.held i (by rw [held]; exact List.mem_append_right _ mem)).2 s inside
      exact next.sound.settled there kept
    have first : ((call.perform.after b).afterAll calls).told (call.perform.result b) = a.alone call := by
      rw [toldLater (Arena.framedAll factories _) (next.regular there) issued]
      exact Call.sameAlone factory frame regular (reachable.regular here) given
    exact congrArg₂ List.cons (congrArg (Prod.mk call) first) rest

end Runs

/-- The text of a node is settled by what is looked up to write it. It is the same in every arena of the dialect in
which all that is found again, under whatever handles. A call that changes none of it keeps the text, and so does
every factory, refused or not. Factories that do not use one another's results can be called in any order: each
makes the same texts or is refused for the same cause. -/
theorem textFromReadsAlone {p : Policy} {w : World} {n : Nat} {a : Arena} (reachable : w.Reachable p)
    (here : w.session.arenas[n]? = some a) :
    (∀ (r : NodeRef) (text : String), a.render r = .ok text →
      (∀ (f : Renaming) (b : Arena), Mirrored f a b r → b.render (r.rename f) = .ok text) ∧
      ∀ (call : Call) (result : Except Misuse Answer) (after : Session),
        w.session.step n call = some (result, after) →
        call.isFactory = true ∨ (∀ k ∈ call.changed, ¬a.Reads r k) ∧ (∀ k ∈ call.remarked, ¬a.Shows r k) →
        ∃ b, after.arenas[n]? = some b ∧ b.render r = .ok text) ∧
    ∀ calls calls' : List Call, (∀ call ∈ calls, call.isFactory = true ∧ w.Allows p n call) → calls.Perm calls' →
      (a.produced calls).Perm (a.produced calls') := by
  refine ⟨fun r text rendered => ⟨fun f b mirrored => mirrored.text rendered, ?_⟩, ?_⟩
  · intro call result after ran apart
    obtain ⟨a', b, found, rfl, ends⟩ := Session.stepCases ran
    cases Option.some.inj (here.symm.trans found)
    have inside := (Array.getElem?_eq_some_iff.mp here).1
    refine ⟨b, by simp [inside], ?_⟩
    rcases apart with factory | ⟨unread, unshown⟩
    · obtain ⟨unchanged, unremarked⟩ := Call.isFactoryIff.mp factory
      exact ends.text (by simp [unchanged]) (by simp [unremarked]) rendered
    · exact ends.text unread unshown rendered
  · intro calls calls' given same
    have sound := reachable.sound
    have alone {calls : List Call} (given : ∀ call ∈ calls, call.isFactory = true ∧ w.Allows p n call) :
        a.produced calls = calls.map fun call => (call, a.alone call) := by
      refine producedFrom (reachable.regular here) (fun call mem => (given call mem).1) ?_ reachable here
        (fun call mem => (given call mem).2) .refl
      exact fun call mem s listed => sound.settled here (sound.issued (given call mem).2 s listed).2
    rw [alone given, alone fun call mem => given call (same.mem_iff.mpr mem)]
    exact same.map _

def World.pointerFirst : World :=
  ((empty.grow .c).act 0 (.type (.raw "int"))).act 0 (.type (.pointer ⟨0, 1⟩))

theorem World.pointerFirstReachable : pointerFirst.Reachable .strict := by
  refine .act (.act (Reachable.start.grow .c) ?_) ?_
  all_goals exact allowsHeld (by decide) rfl (by decide)

def World.pointerLater : World :=
  (((empty.grow .c).act 0 (.type (.raw "char"))).act 0 (.type (.raw "int"))).act 0 (.type (.pointer ⟨0, 2⟩))

def behindOneType : Renaming :=
  ⟨fun c h => if c = .type ∧ 0 < h.index then ⟨h.arena, h.index + 1⟩ else h⟩

theorem pointerTextsAgree : ∃ a b, World.pointerFirst.session.arenas[0]? = some a ∧
    World.pointerLater.session.arenas[0]? = some b ∧ b.render ⟨.type, 0, 3⟩ = .ok "int*" ∧
    (∃ result after c, World.pointerFirst.session.step 0 (.type (.reference ⟨0, 1⟩)) = some (result, after) ∧
      after.arenas[0]? = some c ∧ c.render ⟨.type, 0, 2⟩ = .ok "int*") ∧
    (a.produced [.type (.pointer ⟨0, 2⟩), .expr (.sizeof ⟨0, 1⟩)]).Perm
      (a.produced [.expr (.sizeof ⟨0, 1⟩), .type (.pointer ⟨0, 2⟩)]) := by
  obtain ⟨a, here⟩ : ∃ a, World.pointerFirst.session.arenas[0]? = some a := ⟨_, rfl⟩
  obtain ⟨b, there⟩ : ∃ b, World.pointerLater.session.arenas[0]? = some b := ⟨_, rfl⟩
  have rendered : a.render ⟨.type, 0, 2⟩ = .ok "int*" := by
    cases here
    decide +kernel
  have all : a.allRefs = [⟨.type, 0, 0⟩, ⟨.type, 0, 1⟩, ⟨.type, 0, 2⟩] := by
    cases here
    rfl
  have mirrored : Mirrored behindOneType a b ⟨.type, 0, 2⟩ := by
    refine ⟨?_, fun k _ n found => ?_, fun k _ => ?_⟩
    · cases here
      cases there
      rfl
    · obtain ⟨own, stored⟩ := Arena.nodeIff.mp found
      have listed := Arena.Present.listed ⟨own, (Array.getElem?_eq_some_iff.mp stored).1⟩
      rw [all] at listed
      cases here
      cases there
      simp only [List.mem_cons, List.not_mem_nil, or_false] at listed
      rcases listed with rfl | rfl | rfl
      all_goals
        cases found
        rfl
    · cases here
      cases there
      rfl
  have agreed := textFromReadsAlone World.pointerFirstReachable here
  obtain ⟨same, kept⟩ := agreed.1 _ _ rendered
  obtain ⟨⟨result, after⟩, ran⟩ :
      ∃ done, World.pointerFirst.session.step 0 (.type (.reference ⟨0, 1⟩)) = some done := ⟨_, rfl⟩
  obtain ⟨c, found, text⟩ := kept _ _ _ ran (.inl rfl)
  refine ⟨a, b, here, there, same _ _ mirrored, ⟨result, after, c, ran, found, text⟩, agreed.2 _ _ ?_ (.swap ..)⟩
  refine List.forall_mem_cons.mpr ⟨⟨rfl, ?_⟩, List.forall_mem_singleton.mpr ⟨rfl, ?_⟩⟩
  all_goals exact World.allowsHeld (by decide) rfl (by decide)

end CSource
