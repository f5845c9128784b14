import CSource.Proofs.Reading
import CSource.Proofs.Touched

/-!
The text of a node depends on what is looked up to write it, and on nothing else of the arena: not on the numbers of
the handles, the order in which nodes were stored, or the nodes besides.
-/

namespace CSource

open Relation Pieces Render

/-- All that is looked up to write the node is found again in the other arena, with the same comments. -/
structure Mirrored (f : Renaming) (a b : Arena) (r : NodeRef) : Prop where
  dialect : b.dialect = a.dialect
  nodes : ∀ k, a.Reads r k → Mirrors f a b k
  comments : ∀ k, a.Shows r k → b.commentsOf (k.rename f) = a.commentsOf k

section Segments

variable {f : Renaming} {a b : Arena} {r k : NodeRef} {child other : NodeRef → Except Misuse (List Segment)}
  {ps : Pieces} {segs : List Segment}

theorem Mirrored.below (mirrored : Mirrored f a b r) (writes : a.Writes r k) : Mirrored f a b k where
  dialect := mirrored.dialect
  nodes := fun l ⟨m, shows, reads⟩ => mirrored.nodes l ⟨m, .head writes shows, reads⟩
  comments := fun l shows => mirrored.comments l (.head writes shows)

theorem childStep : .ok k ∈ steps ps ↔ .child k ∈ ps := by
  induction ps with
  | nil => simp
  | cons p ps ih => cases p <;> simp [steps, ih]

theorem faultStep {cause : Misuse} : .error cause ∈ steps ps ↔ .fault cause ∈ ps := by
  induction ps with
  | nil => simp
  | cons p ps ih => cases p <;> simp [steps, ih]

def pieceSegments (child : NodeRef → Except Misuse (List Segment)) : Piece → Except Misuse (List Segment)
  | .code text => .ok [.code text]
  | .child r => child r
  | .fault cause => .error cause

theorem assembleCons {p : Piece} : assemble child (p :: ps) = .ok segs ↔
    ∃ head tail, pieceSegments child p = .ok head ∧ assemble child ps = .ok tail ∧ head ++ tail = segs := by
  cases p with
  | code text => cases rest : assemble child ps <;> simp [assemble, pieceSegments, rest, bind, Except.bind, pure,
      Except.pure]
  | child r =>
    cases first : child r <;> cases rest : assemble child ps <;>
      simp [assemble, pieceSegments, first, rest, bind, Except.bind, pure, Except.pure]
  | fault cause => simp [assemble, pieceSegments]

theorem assembledAll (done : assemble child ps = .ok segs) :
    Clean ps ∧ ∀ k, .child k ∈ ps → ∃ inside, child k = .ok inside := by
  induction ps generalizing segs with
  | nil => exact ⟨nofun, nofun⟩
  | cons p ps ih =>
    obtain ⟨head, tail, first, rest, _⟩ := assembleCons.mp done
    obtain ⟨clean, each⟩ := ih rest
    refine ⟨fun cause mem => ?_, fun k mem => ?_⟩
    · rcases List.mem_cons.mp mem with rfl | mem
      · contradiction
      · exact clean cause mem
    · rcases List.mem_cons.mp mem with rfl | mem
      · exact ⟨head, first⟩
      · exact each k mem

theorem mirroredAssemble (same : ∀ k inside, .child k ∈ ps → child k = .ok inside →
      other (k.rename f) = .ok (inside.map (·.rename f))) (done : assemble child ps = .ok segs) :
    assemble other (rename f ps) = .ok (segs.map (·.rename f)) := by
  induction ps generalizing segs with
  | nil =>
    cases done
    rfl
  | cons p ps ih =>
    obtain ⟨head, tail, first, rest, rfl⟩ := assembleCons.mp done
    have later := ih (fun k inside mem => same k inside (List.mem_cons_of_mem _ mem)) rest
    refine assembleCons.mpr ⟨_, _, ?_, later, List.map_append.symm⟩
    cases p with
    | code text =>
      cases first
      rfl
    | child r => exact same r head (List.mem_cons_self ..) first
    | fault cause => contradiction

theorem mirroredAnnotate {body : List Segment} (comments : b.commentsOf (r.rename f) = a.commentsOf r) :
    annotate b (r.rename f) (body.map (·.rename f)) = (annotate a r body).map (·.rename f) := by
  have block (side : Side) (text : Option String) :
      blockComment (r.rename f) side text = (blockComment r side text).map (·.rename f) := by
    cases text <;> rfl
  unfold annotate
  rw [comments]
  cases a.commentsOf r with
  | none => rfl
  | some c => simp [block]

theorem segmentsSucc {depth : Nat} : segmentsWithin a (depth + 1) r = .ok segs ↔
    ∃ body, assemble (segmentsWithin a depth) (pieces a r) = .ok body ∧
      annotate a r (if continuesLines a r then body.map (·.continued) else body) = segs := by
  unfold segmentsWithin
  cases assemble (segmentsWithin a depth) (pieces a r) <;> simp [bind, Except.bind, pure, Except.pure]

theorem Mirrored.segments {depth : Nat} (mirrored : Mirrored f a b r)
    (done : segmentsWithin a depth r = .ok segs) :
    segmentsWithin b depth (r.rename f) = .ok (segs.map (·.rename f)) := by
  -- what a part reads the whole reads, so the hypothesis passes to the parts
  induction depth generalizing r segs with
  | zero => contradiction
  | succ depth ih =>
    obtain ⟨body, written, rfl⟩ := segmentsSucc.mp done
    have clean := (assembledAll written).1
    obtain ⟨n, found⟩ := cleanFound clean
    have here : Mirrors f a b r := mirrored.nodes r ⟨r, .refl, .inl rfl⟩
    have same := mirroredPieces mirrored.dialect here (fun k mem => mirrored.nodes k ⟨r, .refl, .inr mem⟩) clean
    have inside := mirroredAssemble (fun k inside mem done => ih (mirrored.below mem) done) written
    have continued (s : Segment) : (s.rename f).continued = s.continued.rename f := by cases s <;> rfl
    refine segmentsSucc.mpr ⟨body.map (·.rename f), same ▸ inside, ?_⟩
    rw [mirroredContinues here found, ← mirroredAnnotate (mirrored.comments r .refl)]
    split <;> simp [continued, Function.comp_def]

theorem segmentsListed {depth : Nat} (done : segmentsWithin a depth r = .ok segs) : r ∈ a.allRefs := by
  cases depth with
  | zero => contradiction
  | succ depth =>
    obtain ⟨body, written, _⟩ := segmentsSucc.mp done
    obtain ⟨n, found⟩ := cleanFound (assembledAll written).1
    obtain ⟨own, there⟩ := Arena.nodeIff.mp found
    exact Arena.Present.listed ⟨own, (Array.getElem?_eq_some_iff.mp there).1⟩

theorem segmentsDown {depth : Nat} (done : segmentsWithin a (depth + 2) r = .ok segs)
    (short : ¬∃ segs, segmentsWithin a (depth + 1) r = .ok segs) :
    ∃ k, (∃ segs, segmentsWithin a (depth + 1) k = .ok segs) ∧ ¬∃ segs, segmentsWithin a depth k = .ok segs := by
  obtain ⟨body, written, _⟩ := segmentsSucc.mp done
  obtain ⟨clean, each⟩ := assembledAll written
  by_contra none
  push Not at none
  obtain ⟨body, written⟩ := assembleOk (fun cause mem => clean cause (faultStep.mp mem))
    fun k mem => none k (each k (childStep.mp mem))
  exact short ⟨_, segmentsSucc.mpr ⟨body, written, rfl⟩⟩

theorem segmentsBounded {depth : Nat} (done : segmentsWithin a depth r = .ok segs) : a.segments r = .ok segs := by
  have within := depthBounded (segmentsWithin a) a.allRefs nofun segmentsDeeper segmentsListed segmentsDown done
  rw [Arena.allRefsLength] at within
  exact segmentsDeeper within

theorem renderedSegments {text : String} (rendered : a.render r = .ok text) :
    ∃ segs, a.segments r = .ok segs ∧ String.join (segs.map (·.text)) = text := by
  unfold Arena.render at rendered
  cases done : a.segments r with
  | error cause => simp [done, bind, Except.bind] at rendered
  | ok segs =>
    rw [done] at rendered
    exact ⟨segs, rfl, Except.ok.inj rendered⟩

theorem Mirrored.text {text : String} (mirrored : Mirrored f a b r) (rendered : a.render r = .ok text) :
    b.render (r.rename f) = .ok text := by
  obtain ⟨segments, done, rfl⟩ := renderedSegments rendered
  have texts : (segments.map (·.rename f)).map (·.text) = segments.map (·.text) := by
    rw [List.map_map]
    exact List.map_congr_left fun s _ => by cases s <;> rfl
  rw [Arena.render, segmentsBounded (mirrored.segments done)]
  show Except.ok (String.join ((segments.map (·.rename f)).map (·.text))) = _
  rw [texts]

end Segments

section Stable

def Stable (f : Renaming) (a : Arena) : Prop :=
  ∀ ⦃c : Category⦄ ⦃h : Handle c⦄ ⦃n : Node c⦄, f h = h → a.node h = .ok n → Node.rename f c n = n

variable {f : Renaming} {a : Arena} {r k : NodeRef}

theorem Stable.mirrors (stable : Stable f a) (fixed : f k.handle = k.handle) : Mirrors f a a k := by
  intro n found
  rw [fixed, stable fixed found, found]

theorem Stable.naming (stable : Stable f a) {depth : Nat} {d : DeclRef} (fixed : f d = d) :
    ∀ k ∈ a.namingWithin depth d, f k.handle = k.handle := by
  induction depth generalizing d with
  | zero => exact List.forall_mem_nil _
  | succ depth ih =>
    unfold Arena.namingWithin
    refine List.forall_mem_cons.mpr ⟨fixed, ?_⟩
    cases found : a.node d with
    | error cause => exact List.forall_mem_nil _
    | ok n =>
      have whole := stable fixed found
      cases n with
      | raw | var | function => exact List.forall_mem_nil _
      | splitForward inner => exact ih (DeclNode.splitForward.inj whole)
      | template params inner => exact ih (DeclNode.template.inj whole).2
      | aggregate ty forward => exact List.forall_mem_singleton.mpr (DeclNode.aggregate.inj whole).1
      | enumeration ty forward => exact List.forall_mem_singleton.mpr (DeclNode.enumeration.inj whole).1
      | typeDef ty => exact List.forall_mem_singleton.mpr (DeclNode.typeDef.inj whole)
      | usingType ty => exact List.forall_mem_singleton.mpr (DeclNode.usingType.inj whole)

theorem Stable.declaring (stable : Stable f a) {ty : TypeRef} (fixed : f ty = ty) :
    ∀ k ∈ a.declaring ty, f k.handle = k.handle := by
  unfold Arena.declaring
  refine List.forall_mem_cons.mpr ⟨fixed, ?_⟩
  cases found : a.node ty with
  | error cause => exact List.forall_mem_nil _
  | ok n =>
    have whole := stable fixed found
    cases n with
    | pointer pointee => exact List.forall_mem_singleton.mpr (TypeNode.pointer.inj whole)
    | _ => exact List.forall_mem_nil _

theorem Stable.consultedDecl (stable : Stable f a) {n : DeclNode} (whole : n.rename f = n) :
    ∀ k ∈ n.consulted a, f k.handle = k.handle := by
  have forward {ty : TypeRef} {forward : Bool} (fixed : f ty = ty) :
      ∀ k ∈ if forward then [ty.ref] else [], f k.handle = k.handle := by
    cases forward with
    | true => exact List.forall_mem_singleton.mpr fixed
    | false => exact List.forall_mem_nil _
  cases n with
  | raw | template => exact List.forall_mem_nil _
  | var data => exact stable.declaring (congrArg VarDecl.ty (DeclNode.var.inj whole))
  | function data =>
    have method := congrArg FuncDecl.method (DeclNode.function.inj whole)
    intro k mem
    simp only [DeclNode.consulted, List.mem_ite_nil_right, List.mem_map, Option.mem_toList] at mem
    obtain ⟨_, m, isMember, rfl⟩ := mem
    have fixed : m.rename f = m := by simpa [FuncDecl.rename, isMember] using method
    exact congrArg Membership.parent fixed
  | splitForward func => exact List.forall_mem_singleton.mpr (DeclNode.splitForward.inj whole)
  | aggregate ty isForward => exact forward (DeclNode.aggregate.inj whole).1
  | enumeration ty isForward => exact forward (DeclNode.enumeration.inj whole).1
  | typeDef ty =>
    have fixed : f ty = ty := DeclNode.typeDef.inj whole
    refine List.forall_mem_cons.mpr ⟨fixed, ?_⟩
    cases found : a.node ty with
    | error cause => exact List.forall_mem_nil _
    | ok m =>
      have inner := stable fixed found
      cases m with
      | synonym name aliased => exact stable.declaring (TypeNode.synonym.inj inner).2
      | _ => exact List.forall_mem_nil _
  | usingType ty => exact List.forall_mem_singleton.mpr (DeclNode.usingType.inj whole)

theorem Stable.consulted (stable : Stable f a) (fixed : f r.handle = r.handle) :
    ∀ k ∈ a.consulted r, f k.handle = k.handle := by
  unfold Arena.consulted
  cases found : a.node r.handle with
  | error cause => exact List.forall_mem_nil _
  | ok n =>
    have whole := stable fixed found
    obtain ⟨c, arena, index⟩ := r
    cases c with
    | type =>
      cases n with
      | named d => exact stable.naming (TypeNode.named.inj whole)
      | instantiation d args => exact stable.naming (TypeNode.instantiation.inj whole).1
      | _ => exact List.forall_mem_nil _
    | decl => exact stable.consultedDecl whole
    | expr =>
      cases n with
      | var d => exact stable.naming (ExprNode.var.inj whole)
      | instantiation d args => exact stable.naming (ExprNode.instantiation.inj whole).1
      | _ => exact List.forall_mem_nil _
    | stmt | directive | scope => exact List.forall_mem_nil _

/-- A renaming that fixes a node and what the node is built of fixes its pieces, and so the children among them. -/
theorem Stable.writes (stable : Stable f a) (fixed : f r.handle = r.handle) (clean : Clean (pieces a r))
    (writes : a.Writes r k) : f k.handle = k.handle := by
  have same := mirroredPieces rfl (stable.mirrors fixed)
    (fun k mem => stable.mirrors (stable.consulted fixed k mem)) clean
  have whole : r.rename f = r := congrArg Handle.ref fixed
  rw [whole] at same
  have each := List.map_inj_left.mp (same.symm.trans (List.map_id _).symm) _ writes
  exact refInjective (Piece.child.inj each)

theorem Stable.reads (stable : Stable f a) (fixed : f r.handle = r.handle) {depth : Nat} {segs : List Segment}
    (done : segmentsWithin a depth r = .ok segs) (reads : a.Reads r k) : f k.handle = k.handle := by
  have inside {m : NodeRef} (shows : a.Shows r m) :
      f m.handle = m.handle ∧ ∃ depth segs, segmentsWithin a depth m = .ok segs := by
    induction shows with
    | refl => exact ⟨fixed, depth, segs, done⟩
    | tail _ writes ih =>
      obtain ⟨fixed, depth, segs, done⟩ := ih
      cases depth with
      | zero => contradiction
      | succ depth =>
        obtain ⟨body, written, _⟩ := segmentsSucc.mp done
        obtain ⟨clean, each⟩ := assembledAll written
        exact ⟨stable.writes fixed clean writes, depth, each _ writes⟩
  obtain ⟨m, shows, rfl | consulted⟩ := reads
  · exact (inside shows).1
  · exact stable.consulted (inside shows).1 k consulted

end Stable

section Linked

/-- What the renaming leads to in the second arena is a copy of the first. -/
structure Linked (f g : Renaming) (a b : Arena) : Prop where
  back : g.after f = .same
  dialect : b.dialect = a.dialect
  node : ∀ {c : Category} (h : Handle c), b.node (f h) = Node.rename f c <$> a.node h
  comments : ∀ r : NodeRef, b.commentsOf (r.rename f) = a.commentsOf r

variable {f g : Renaming} {a b : Arena} {r : NodeRef}

theorem Linked.mirrored (linked : Linked f g a b) : Mirrored f a b r where
  dialect := linked.dialect
  nodes k _ n found := by
    rw [linked.node, found]
    rfl
  comments k _ := linked.comments k

theorem Linked.found (linked : Linked f g a b) {c : Category} {h : Handle c} {m : Node c}
    (found : b.node (f h) = .ok m) : ∃ n, a.node h = .ok n ∧ Node.rename f c n = m := by
  rw [linked.node] at found
  exact Except.mapOk found

theorem Linked.returns (linked : Linked f g a b) {c : Category} (h : Handle c) : g (f h) = h :=
  congrArg (fun e : Renaming => e.apply c h) linked.back

theorem Linked.stable (linked : Linked f g a b) : Stable (f.after g) b := by
  intro c h m fixed found
  have image : f (g h) = h := fixed
  rw [← image] at found
  obtain ⟨n, _, rfl⟩ := linked.found found
  have same : (f.after g).after f = f := congrArg f.after linked.back
  rw [← Node.renameAfter, same]

theorem Linked.text (linked : Linked f g a b) {text : String} :
    a.render r = .ok text ↔ b.render (r.rename f) = .ok text := by
  refine ⟨linked.mirrored.text, fun rendered => ?_⟩
  obtain ⟨segs, done, _⟩ := renderedSegments rendered
  have home : (r.rename f).rename g = r := congrArg Handle.ref (linked.returns r.handle)
  -- what the copy reads are copies
  have copied : f (g (r.rename f).handle) = (r.rename f).handle :=
    congrArg (f.apply r.category) (linked.returns r.handle)
  have copies {k : NodeRef} (reads : b.Reads (r.rename f) k) : f (g k.handle) = k.handle :=
    linked.stable.reads copied done reads
  have mirrored : Mirrored g b a (r.rename f) := by
    refine ⟨linked.dialect.symm, fun k reads m found => ?_, fun k shows => ?_⟩
    · rw [← copies reads] at found
      obtain ⟨n, here, rfl⟩ := linked.found found
      rw [here, ← Node.renameAfter, linked.back, Node.renameSame]
    · have image : (k.rename g).rename f = k := congrArg Handle.ref (copies ⟨k, shows, .inl rfl⟩)
      rw [← linked.comments, image]
  rw [← home]
  exact mirrored.text rendered

end Linked

theorem Frame.text {S C : List NodeRef} {a b : Arena} {r : NodeRef} {text : String} (frame : Frame S C a b)
    (apart : ∀ k ∈ S, ¬a.Reads r k) (quiet : ∀ k ∈ C, ¬a.Shows r k) (rendered : a.render r = .ok text) :
    b.render r = .ok text := by
  have mirrored : Mirrored .same a b r := by
    refine ⟨frame.dialect, fun k reads n found => ?_, fun k shows => ?_⟩
    · rw [Node.renameSame]
      exact frame.node (fun mem => apart k mem reads) found
    · exact frame.comments fun mem => quiet k mem shows
  exact mirrored.text rendered

/-- A call keeps the texts of all nodes whose writing does not look up what the call changes, whether the call
succeeds or is refused. -/
theorem Ends.text {call : Call} {a b : Arena} {result : Except Misuse Answer} {r : NodeRef} {text : String}
    (ends : Ends call.perform a result b) (apart : ∀ k ∈ call.changed, ¬a.Reads r k)
    (quiet : ∀ k ∈ call.remarked, ¬a.Shows r k) (rendered : a.render r = .ok text) : b.render r = .ok text :=
  ends.frame.text apart quiet rendered

end CSource
