import CSource.Proofs.Course.Worlds
import CSource.Proofs.Marking
import CSource.Proofs.Reordering
import CSource.Proofs.Signatures

/-!
Placing an entry. A call that puts something into a scope makes the scope one entry longer, and no other scope; the
scopes that it makes on the way are empty. The text of the scope is continued by the text of the entry, because what
was written before is written as before: it does not contain the scope, and it does not show that a function has
been marked as defined.
-/

namespace CSource

open Render Relation

def ScopeKind.lineOf (code : String) : ScopeKind → String
  | topLevel | members _ true => code ++ "\n"
  | function | members _ false => code
  | macroBody => Text.continueLines code

section Text

variable {a b : Arena} {r k : NodeRef} {ps : Pieces} {text inner : String}

def commentText : Option String → String
  | some text => "/* " ++ text ++ " */"
  | none => ""

def Arena.commented (a : Arena) (r : NodeRef) (inner : String) : String :=
  match a.commentsOf r with
  | some c => commentText c.before ++ inner ++ commentText c.after
  | none => inner

def continuedIf (continues : Bool) (text : String) : String :=
  if continues then Text.continueLines text else text

theorem continuedIfAppend (continues : Bool) (s t : String) :
    continuedIf continues (s ++ t) = continuedIf continues s ++ continuedIf continues t := by
  cases continues with
  | true => exact Text.continueLinesAppend s t
  | false => rfl

theorem continuedText (continues : Bool) (body : List Segment) :
    String.join ((if continues then body.map (·.continued) else body).map (·.text)) =
      continuedIf continues (String.join (body.map (·.text))) := by
  cases continues with
  | false => rfl
  | true =>
    induction body with
    | nil => rfl
    | cons s body ih =>
      have head : s.continued.text = Text.continueLines s.text := by cases s <;> rfl
      simp only [if_true, List.map_cons, String.join_cons, continuedIfAppend, head] at ih ⊢
      rw [ih]
      rfl

theorem commentedText (body : List Segment) :
    String.join ((annotate a r body).map (·.text)) = a.commented r (String.join (body.map (·.text))) := by
  have block (side : Side) (comment : Option String) :
      String.join ((blockComment r side comment).map (·.text)) = commentText comment := by
    cases comment with
    | none => rfl
    | some text => simp [blockComment, commentText, Segment.text]
  unfold annotate Arena.commented
  cases a.commentsOf r with
  | none => rfl
  | some c => simp [String.join_append, String.append_assoc, block]

theorem Arena.Spells.assembled (spelled : a.Spells ps text) :
    ∃ segments, assemble a.segments ps = .ok segments ∧ String.join (segments.map (·.text)) = text := by
  induction spelled with
  | nil => exact ⟨[], rfl, rfl⟩
  | code s spelled ih =>
    obtain ⟨tail, done, rfl⟩ := ih
    exact ⟨.code s :: tail, by rw [assemble, done]; rfl, by rw [List.map_cons, String.join_cons]; rfl⟩
  | @child r head rest ps written spelled ih =>
    obtain ⟨tail, done, rfl⟩ := ih
    obtain ⟨segments, first, rfl⟩ := renderedSegments written
    refine ⟨segments ++ tail, by rw [assemble, first, done]; rfl, ?_⟩
    rw [List.map_append, String.join_append]

theorem renderedIff : a.render r = .ok text ↔
    ∃ inner, a.Spells (pieces a r) inner ∧ text = a.commented r (continuedIf (continuesLines a r) inner) := by
  constructor
  · intro rendered
    obtain ⟨_, done, rfl⟩ := renderedSegments rendered
    obtain ⟨body, written, rfl⟩ := segmentsSucc.mp done
    refine ⟨_, Arena.spellsAssembled (assembleSame (fun _ _ => segmentsDeeper) written), ?_⟩
    rw [commentedText, continuedText]
  · rintro ⟨inner, spelled, rfl⟩
    obtain ⟨body, written, rfl⟩ := spelled.assembled
    have whole := segmentsBounded (segmentsSucc.mpr ⟨body, written, rfl⟩)
    rw [Arena.render, whole]
    show Except.ok (String.join _) = _
    rw [commentedText, continuedText]

theorem Arena.Spells.carried (carry : ∀ k, .child k ∈ ps → ∀ t, a.render k = .ok t → b.render k = .ok t)
    (spelled : a.Spells ps text) : b.Spells ps text := by
  induction spelled with
  | nil => exact .nil
  | code s spelled ih => exact .code s (ih fun k mem => carry k (List.mem_cons_of_mem _ mem))
  | child written spelled ih =>
    exact .child (carry _ (List.mem_cons_self ..) _ written) (ih fun k mem => carry k (List.mem_cons_of_mem _ mem))

end Text

section Apart

variable {a b : Arena} {r k : NodeRef} {segs : List Segment}

theorem shownWithin {depth : Nat} (done : segmentsWithin a depth r = .ok segs) (shows : a.Shows r k) :
    ∃ segs, segmentsWithin a depth k = .ok segs := by
  induction shows using ReflTransGen.head_induction_on generalizing depth segs with
  | refl => exact ⟨segs, done⟩
  | head writes _ ih =>
    cases depth with
    | zero => contradiction
    | succ depth =>
      obtain ⟨body, written, _⟩ := segmentsSucc.mp done
      obtain ⟨inside, below⟩ := (assembledAll written).2 _ writes
      obtain ⟨segs, further⟩ := ih below
      exact ⟨segs, segmentsDeeper further⟩

theorem writtenApart {depth : Nat} (done : segmentsWithin a depth r = .ok segs) (writes : a.Writes r k) :
    ¬a.Shows k r := by
  intro back
  -- by induction on the depth: a node that is written below its own parts is written again one level deeper
  induction depth generalizing segs with
  | zero => contradiction
  | succ depth ih =>
    obtain ⟨body, written, _⟩ := segmentsSucc.mp done
    obtain ⟨inside, below⟩ := (assembledAll written).2 _ writes
    obtain ⟨segs, again⟩ := shownWithin below back
    exact ih again

theorem innerRef {c : Category} (h : Handle c) (inner : c ≠ .scope) : h.ref.category ≠ .scope := inner

theorem namingInner {depth : Nat} {d : DeclRef} : ∀ k ∈ a.namingWithin depth d, k.category ≠ .scope := by
  induction depth generalizing d with
  | zero => exact List.forall_mem_nil _
  | succ depth ih =>
    unfold Arena.namingWithin
    refine List.forall_mem_cons.mpr ⟨innerRef _ (by decide), ?_⟩
    cases a.node d with
    | error cause => exact List.forall_mem_nil _
    | ok n =>
      cases n with
      | splitForward | template => exact ih
      | aggregate | enumeration | typeDef | usingType => exact List.forall_mem_singleton.mpr (innerRef _ (by decide))
      | _ => exact List.forall_mem_nil _

theorem declaringInner {ty : TypeRef} : ∀ k ∈ a.declaring ty, k.category ≠ .scope := by
  unfold Arena.declaring
  refine List.forall_mem_cons.mpr ⟨innerRef _ (by decide), ?_⟩
  cases a.node ty with
  | error cause => exact List.forall_mem_nil _
  | ok n =>
    cases n with
    | pointer => exact List.forall_mem_singleton.mpr (innerRef _ (by decide))
    | _ => exact List.forall_mem_nil _

theorem consultedInner : ∀ k ∈ a.consulted r, k.category ≠ .scope := by
  unfold Arena.consulted
  cases a.node r.handle with
  | error cause => exact List.forall_mem_nil _
  | ok n =>
    obtain ⟨c, arena, index⟩ := r
    cases c with
    | type =>
      cases n with
      | named | instantiation => exact namingInner
      | _ => exact List.forall_mem_nil _
    | decl =>
      cases n with
      | raw | template => exact List.forall_mem_nil _
      | var => exact declaringInner
      | function data =>
        simp only [Node.consulted, DeclNode.consulted]
        split
        · exact List.forall_mem_map.mpr fun _ _ => innerRef _ (by decide)
        · exact List.forall_mem_nil _
      | splitForward | usingType => exact List.forall_mem_singleton.mpr (innerRef _ (by decide))
      | aggregate ty forward | enumeration ty forward =>
        cases forward with
        | true => exact List.forall_mem_singleton.mpr (innerRef _ (by decide))
        | false => exact List.forall_mem_nil _
      | typeDef ty =>
        refine List.forall_mem_cons.mpr ⟨innerRef _ (by decide), ?_⟩
        cases a.node ty with
        | error cause => exact List.forall_mem_nil _
        | ok m =>
          cases m with
          | synonym => exact declaringInner
          | _ => exact List.forall_mem_nil _
    | expr =>
      cases n with
      | var | instantiation => exact namingInner
      | _ => exact List.forall_mem_nil _
    | stmt | directive | scope => exact List.forall_mem_nil _

theorem Puts.text {scope : ScopeRef} {text : String} (puts : Puts scope a b) (apart : ¬b.Shows r scope.ref)
    (rendered : b.render r = .ok text) : a.render r = .ok text := by
  obtain ⟨n, e, here, rfl⟩ := puts
  have mirrored : Mirrored .same (a.replace scope { n with entries := n.entries ++ [e] }) a r := by
    refine ⟨by simp, fun k reads m found => ?_, fun k _ => by simp [Arena.commentsOf]; rfl⟩
    -- the scope is not written below the node, and no text looks a scope up
    have other : k ≠ scope.ref := by
      rintro rfl
      obtain ⟨l, shows, rfl | consulted⟩ := reads
      · exact apart shows
      · exact consultedInner _ consulted rfl
    rw [Node.renameSame, ← found]
    exact (Arena.nodeReplaceOther (g := k.handle) (nodeOwn here) other).symm
  exact mirrored.text rendered

end Apart

section Scope

variable {a b : Arena} {n : ScopeNode} {e : Entry} {scope : ScopeRef}

theorem scopeAppend : Render.scope { n with entries := n.entries ++ [e] } =
    Render.scope n ++ .child e.ref :: if n.kind.endsLines then [.code "\n"] else [] := by
  simp [Render.scope]

theorem spellsLine {text : String} :
    a.Spells (.child e.ref :: if n.kind.endsLines then [.code "\n"] else []) text ↔
      ∃ code, a.render e.ref = .ok code ∧ text = code ++ if n.kind.endsLines then "\n" else "" := by
  cases n.kind.endsLines <;> simp [Arena.spellsChild, Arena.spellsCode, Arena.spellsNil]

theorem continuedLine (kind : ScopeKind) (code : String) :
    continuedIf kind.continuesLines (code ++ if kind.endsLines then "\n" else "") = kind.lineOf code := by
  cases kind with
  | members parent labeled => cases labeled <;> simp [continuedIf, ScopeKind.lineOf, ScopeKind.endsLines,
      ScopeKind.continuesLines]
  | _ => simp [continuedIf, ScopeKind.lineOf, ScopeKind.endsLines, ScopeKind.continuesLines]

theorem scopePieces (here : a.node scope = .ok n) : pieces a scope.ref = Render.scope n := Arena.piecesOf here

theorem entryWritten (here : a.node scope = .ok n) (listed : e ∈ n.entries) : a.Writes scope.ref e.ref := by
  unfold Arena.Writes
  rw [scopePieces here]
  exact List.mem_flatMap.mpr ⟨e, listed, List.mem_cons_self ..⟩

theorem scopeContinues (here : a.node scope = .ok n) : continuesLines a scope.ref = n.kind.continuesLines := by
  simp [continuesLines, Handle.ref, here]

theorem commentedFirst {r : NodeRef} (quiet : ∀ c, a.commentsOf r = some c → c.after = none) :
    ∃ head, ∀ inner, a.commented r inner = head ++ inner := by
  cases found : a.commentsOf r with
  | none => exact ⟨"", fun inner => by simp [Arena.commented, found]⟩
  | some c => exact ⟨commentText c.before, fun inner => by simp [Arena.commented, found, quiet c found, commentText]⟩

theorem scopeText {text : String} (before : a.node scope = .ok n)
    (after : b.node scope = .ok { n with entries := n.entries ++ [e] })
    (comments : b.commentsOf scope.ref = a.commentsOf scope.ref)
    (quiet : ∀ c, a.commentsOf scope.ref = some c → c.after = none)
    (carry : ∀ old ∈ n.entries, ∀ t, b.render old.ref = .ok t → a.render old.ref = .ok t)
    (rendered : b.render scope.ref = .ok text) :
    ∃ old code, a.render scope.ref = .ok old ∧ b.render e.ref = .ok code ∧ text = old ++ n.kind.lineOf code := by
  obtain ⟨inner, spelled, rfl⟩ := renderedIff.mp rendered
  rw [scopePieces after, scopeAppend] at spelled
  obtain ⟨first, _, older, newer, rfl⟩ := Arena.spellsAppend.mp spelled
  obtain ⟨code, written, rfl⟩ := spellsLine.mp newer
  have kept : a.Spells (Render.scope n) first := by
    refine older.carried fun r mem t => ?_
    obtain ⟨old, listed, rfl⟩ := childListed mem
    exact carry old listed t
  have told := renderedIff.mpr ⟨first, (scopePieces before) ▸ kept, rfl⟩
  refine ⟨_, code, told, written, ?_⟩
  obtain ⟨head, framed⟩ := commentedFirst quiet
  have framedLater (inner : String) : b.commented scope.ref inner = head ++ inner := by
    rw [← framed, Arena.commented, comments]
    rfl
  rw [framed, framedLater, scopeContinues before, scopeContinues after, continuedIfAppend, continuedLine,
    String.append_assoc]

end Scope

section Filling

variable {a b mid top : Arena} {scope : ScopeRef} {n : ScopeNode} {e : Entry} {text : String}

def Arena.Empties (a b : Arena) : Prop :=
  ∀ (s : ScopeRef) (m : ScopeNode), a.Beyond s.ref → b.node s = .ok m → m.entries = []

theorem Arena.Empties.push (empties : a.Empties b) {c : Category} {m : Node c} (blank : Node.Blank c m) :
    a.Empties (b.push c m) := by
  intro s k beyond found
  by_cases last : s.ref = (b.nextHandle c).ref
  · cases congrArg NodeRef.category last
    cases refInjective last
    cases Except.ok.inj (nodePushed.symm.trans found)
    exact blank
  · rw [nodePushOther last] at found
    exact empties s k beyond found

theorem Stocks.empties (stocks : Stocks a b) : a.Empties b := by
  induction stocks with
  | refl =>
    intro s m beyond found
    rw [Arena.nodeBeyond beyond.own beyond.index] at found
    contradiction
  | node _ n _ blank ih => exact ih.push blank
  | owner _ kind n _ blank ih => exact (ih.push (c := .scope) (m := (⟨kind, []⟩ : ScopeNode)) rfl).push blank
  | shared _ t key ih =>
    intro s m beyond found
    rw [Table.nodeExtend] at found
    exact ih.push (c := .type) trivial s m beyond found

theorem Fills.comments (fills : Fills scope a b) : b.comments = a.comments := by
  obtain ⟨mid, marked, n, e, here, rfl⟩ := fills
  rw [Arena.commentsReplace]
  rcases marked with rfl | defines
  · rfl
  · exact defines.shape.2.2.1

theorem olderText (regular : a.Regular) (stocks : Stocks a mid) (marked : top = mid ∨ Defines mid top)
    (puts : Puts scope top b) {r : NodeRef} (apart : ¬b.Shows r scope.ref) (settled : a.Settled r)
    (rendered : b.render r = .ok text) : a.render r = .ok text := by
  have placed := puts.text apart rendered
  have stocked : mid.render r = .ok text := by
    rcases marked with rfl | defines
    · exact placed
    · rwa [defines.render] at placed
  rw [← Arena.textOfSome, ← stocks.frame.textOf regular.settled settled]
  exact Arena.textOfSome.mpr stocked

theorem Call.filledSlot {call : Call} {scope : ScopeRef} (filled : call.filled? = some scope) :
    ∃ kind, scope.as (.place kind) ∈ slotsOf call.handles := by
  cases call <;> try contradiction
  all_goals
    cases Option.some.inj filled
    exact ⟨_, List.mem_cons_self ..⟩

theorem World.Sound.present {p : Policy} {w : World} (sound : w.Sound p) {n : Nat} {call : Call}
    (allowed : w.Allows p n call) (here : w.session.arenas[n]? = some a) (filled : call.filled? = some scope)
    (own : scope.arena = a.number) : ∃ m, a.node scope = .ok m := by
  obtain ⟨kind, mem⟩ := Call.filledSlot filled
  obtain ⟨m, found, _⟩ := (sound.trusted allowed here).keeps _ (sound.issued allowed _ mem) own
  exact ⟨m, Arena.nodeIff.mpr ⟨own, found⟩⟩

theorem World.Sound.placing {p : Policy} {w : World} (sound : w.Sound p) {n : Nat} {call : Call}
    (allowed : w.Allows p n call) (here : w.session.arenas[n]? = some a) (filled : call.filled? = some scope)
    {answer : Answer} (ran : call.perform.run a = .ok answer b) :
    ∃ mid top m e, Stocks a mid ∧ (top = mid ∨ Defines mid top) ∧ a.node scope = .ok m ∧ top.node scope = .ok m ∧
      b = top.replace scope { m with entries := m.entries ++ [e] } := by
  obtain ⟨mid, stocks, top, marked, m, e, found, made⟩ := Call.fills filled ran
  have stocked : mid.node scope = .ok m := by
    rcases marked with rfl | defines
    · exact found
    · rwa [defines.nodeOther scope nofun] at found
  obtain ⟨k, before⟩ := sound.present allowed here filled (Call.filledOwn filled ran)
  cases Except.ok.inj ((stocks.keepsNode before).symm.trans stocked)
  exact ⟨mid, top, m, e, stocks, marked, before, found, made⟩

end Filling

/-- What a call does that puts something into a scope. -/
theorem placesOneEntry {p : Policy} {w : World} (reachable : w.Reachable p) {n : Nat} {a b : Arena}
    (here : w.session.arenas[n]? = some a) {call : Call} (allowed : w.Allows p n call) {scope : ScopeRef}
    (filled : call.filled? = some scope) {answer : Answer} (ran : call.perform.run a = .ok answer b) :
    ∃ (m : ScopeNode) (e : Entry), a.node scope = .ok m ∧
      b.node scope = .ok { m with entries := m.entries ++ [e] } ∧
      (∀ (s : ScopeRef) (k : ScopeNode), s ≠ scope → a.node s = .ok k → b.node s = .ok k) ∧
      (∀ (s : ScopeRef) (k : ScopeNode), a.Beyond s.ref → b.node s = .ok k → k.entries = []) ∧
      ∀ text, (∀ c, a.commentsOf scope.ref = some c → c.after = none) → b.render scope.ref = .ok text →
        ∃ old code, a.render scope.ref = .ok old ∧ b.render e.ref = .ok code ∧ text = old ++ m.kind.lineOf code := by
  have sound := reachable.sound
  have regular := reachable.regular here
  obtain ⟨mid, top, m, e, stocks, marked, before, found, made⟩ := sound.placing allowed here filled ran
  have fills : Fills scope mid b := ⟨top, marked, m, e, found, made⟩
  have after : b.node scope = .ok { m with entries := m.entries ++ [e] } := made ▸ Arena.replacedNode found _
  refine ⟨m, e, before, after, ?_, ?_, ?_⟩
  · exact fun s k other there => (fills.keepsOther other).trans (stocks.keepsNode there)
  · intro s k beyond there
    have other : s ≠ scope := by
      rintro rfl
      rw [Arena.nodeBeyond beyond.own beyond.index] at before
      contradiction
    exact stocks.empties s k beyond ((fills.keepsOther other).symm.trans there)
  · intro text quiet rendered
    have comments : b.commentsOf scope.ref = a.commentsOf scope.ref := by
      rw [Arena.commentsOf, fills.comments]
      exact stocks.frame.comments List.not_mem_nil
    obtain ⟨segs, done, _⟩ := renderedSegments rendered
    refine scopeText before after comments quiet (fun old listed t written => ?_) rendered
    have writes := entryWritten after (List.mem_append_left [e] listed)
    have stored : a.Stores old.slot :=
      .node (c := .scope) (Arena.nodeIff.mp before).2 (List.mem_append_right _ (List.mem_map_of_mem listed))
    exact olderText regular stocks marked ⟨m, e, found, made⟩ (writtenApart done writes) (regular.settled _ stored)
      written

def World.classPlaced : World :=
  (splitMethod.act 0 .newTopLevel).act 0 (.putAny ⟨.topLevel, ⟨0, 2⟩⟩ (.decl ⟨0, 0⟩))

theorem World.classPlacedReachable : classPlaced.Reachable .strict := by
  refine .act (.act splitMethodReachable ?_) ?_
  all_goals exact allowsHeld (by decide) rfl (by decide)

theorem definitionPlacedBehind :
    ∃ a answer b old code, World.classPlaced.session.arenas[0]? = some a ∧
      (Call.putTopLevel ⟨.topLevel, ⟨0, 2⟩⟩ rfl (.defineFunction ⟨⟨0, 1⟩⟩)).perform.run a = .ok answer b ∧
      b.render (⟨0, 2⟩ : ScopeRef).ref =
        .ok "struct S\x7bvirtual int m(...)const override;\x7d\nint S::m(...)const\x7b\x7d\n" ∧
      a.render (⟨0, 2⟩ : ScopeRef).ref = .ok old ∧
      "struct S\x7bvirtual int m(...)const override;\x7d\nint S::m(...)const\x7b\x7d\n" = old ++ (code ++ "\n") := by
  obtain ⟨a, here⟩ : ∃ a, World.classPlaced.session.arenas[0]? = some a := ⟨_, rfl⟩
  obtain ⟨answer, b, ran, bare, isTop, rendered⟩ : ∃ answer b,
      (Call.putTopLevel ⟨.topLevel, ⟨0, 2⟩⟩ rfl (.defineFunction ⟨⟨0, 1⟩⟩)).perform.run a = .ok answer b ∧
      a.comments = [] ∧ (∃ entries, a.node (⟨0, 2⟩ : ScopeRef) = .ok ⟨.topLevel, entries⟩) ∧
      b.render (⟨0, 2⟩ : ScopeRef).ref =
        .ok "struct S\x7bvirtual int m(...)const override;\x7d\nint S::m(...)const\x7b\x7d\n" := by
    cases here
    exact ⟨_, _, rfl, rfl, ⟨_, rfl⟩, rfl⟩
  have allowed : World.classPlaced.Allows .strict 0
      (.putTopLevel ⟨.topLevel, ⟨0, 2⟩⟩ rfl (.defineFunction ⟨⟨0, 1⟩⟩)) := World.allowsHeld (by decide) rfl (by decide)
  obtain ⟨m, e, found, _, _, _, told⟩ := placesOneEntry World.classPlacedReachable here allowed rfl ran
  obtain ⟨old, code, before, _, whole⟩ := told _ (by simp [Arena.commentsOf, bare]) rendered
  obtain ⟨entries, top⟩ := isTop
  cases Except.ok.inj (top.symm.trans found)
  exact ⟨a, answer, b, old, code, here, ran, rendered, before, whole⟩

end CSource
