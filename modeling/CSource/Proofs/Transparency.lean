import CSource.Proofs.Splicing
import Mathlib.Logic.Function.Iterate

/-!
Comments are transparent. Without its comments a text is the text that the node has where nothing is commented; and the
comments in it are those of the nodes that are written in it, each pair around the code of its node, continued as often
as that code is.
-/

namespace CSource

open Render Text

def Segment.isCode : Segment → Bool
  | code _ => true
  | comment _ _ _ => false

def codeText (segs : List Segment) : String := String.join ((segs.filter (·.isCode)).map (·.text))

def Comments.at (c : Comments) : Side → Option String
  | .before => c.before
  | .after => c.after

namespace Arena

def commentedBy (a : Arena) (table : List (NodeRef × Comments)) : Arena := { a with comments := table }

def uncommented (a : Arena) : Arena := a.commentedBy []

def note (a : Arena) (r : NodeRef) (side : Side) : Option String := (a.commentsOf r).bind (·.at side)

/-- The comment block of a node that is written within that many macro bodies. -/
def notes (a : Arena) (r : NodeRef) (bodies : Nat) (side : Side) : List Segment :=
  (a.note r side).toList.map fun text => .comment r side (continueLines^[bodies] ("/* " ++ text ++ " */"))

/-- The macro bodies that the parts of a node are in and the node is not. -/
def macroBodies (a : Arena) (r : NodeRef) : Nat := if continuesLines a r then 1 else 0

/-- The second node is written in the text of the first, within that many macro bodies. -/
inductive WrittenIn (a : Arena) : NodeRef → Nat → NodeRef → Prop where
  | here (r : NodeRef) : WrittenIn a r 0 r
  | part {r k l : NodeRef} {bodies : Nat} (writes : a.Writes r k) (rest : WrittenIn a k bodies l) :
      WrittenIn a r (a.macroBodies r + bodies) l

/-- What is written in a node, which is itself within that many macro bodies: code, and the parts of the node between
their comments. -/
inductive Bracketed (a : Arena) : NodeRef → Nat → List Segment → Prop where
  | nil {r : NodeRef} {bodies : Nat} : Bracketed a r bodies []
  | code {r : NodeRef} {bodies : Nat} {rest : List Segment} (text : String) (others : Bracketed a r bodies rest) :
      Bracketed a r bodies (.code text :: rest)
  | part {r k : NodeRef} {bodies inside : Nat} {text : String} {inner rest : List Segment} (writes : a.Writes r k)
      (deeper : inside = bodies + a.macroBodies r) (bare : a.uncommented.render k = .ok text)
      (own : codeText inner = continueLines^[inside] text) (nested : Bracketed a k inside inner)
      (others : Bracketed a r bodies rest) :
      Bracketed a r bodies (a.notes k inside .before ++ inner ++ a.notes k inside .after ++ rest)

end Arena

section Segments

variable {a : Arena} {r : NodeRef} {n m : Nat} {segs : List Segment} {side : Side}

theorem continuedComment (n : Nat) (owner : NodeRef) (side : Side) (text : String) :
    Segment.continued^[n] (.comment owner side text) = .comment owner side (continueLines^[n] text) := by
  have step : Function.Semiconj (Segment.comment owner side) continueLines Segment.continued := fun _ => rfl
  exact (step.iterate_right n text).symm

theorem continuedCode (n : Nat) (text : String) :
    Segment.continued^[n] (.code text) = .code (continueLines^[n] text) := by
  have step : Function.Semiconj Segment.code continueLines Segment.continued := fun _ => rfl
  exact (step.iterate_right n text).symm

theorem continuedKind (n : Nat) (s : Segment) : (Segment.continued^[n] s).isCode = s.isCode := by
  cases s <;> simp [continuedCode, continuedComment, Segment.isCode]

theorem continuedBody : (if continuesLines a r then segs.map (·.continued) else segs) =
    segs.map Segment.continued^[a.macroBodies r] := by
  unfold Arena.macroBodies
  cases continuesLines a r <;> simp

theorem continueLinesMany (n : Nat) (s t : String) :
    continueLines^[n] (s ++ t) = continueLines^[n] s ++ continueLines^[n] t := by
  induction n with
  | zero => rfl
  | succ n ih => simp only [Function.iterate_succ_apply', ih, continueLinesAppend]

@[simp] theorem codeTextCode (text : String) : codeText (.code text :: segs) = text ++ codeText segs := by
  simp [codeText, Segment.isCode, Segment.text]

@[simp] theorem codeTextAppend (segs rest : List Segment) :
    codeText (segs ++ rest) = codeText segs ++ codeText rest := by
  simp [codeText, String.join_append]

@[simp] theorem erasedNotes : (a.notes r n side).filter (·.isCode) = [] := by
  unfold Arena.notes
  cases a.note r side <;> rfl

@[simp] theorem codeTextNotes : codeText (a.notes r n side) = "" := by
  rw [codeText, erasedNotes]
  rfl

theorem codeTextContinued (n : Nat) (segs : List Segment) :
    codeText (segs.map Segment.continued^[n]) = continueLines^[n] (codeText segs) := by
  induction segs with
  | nil => exact (Function.iterate_fixed rfl n).symm
  | cons s segs ih =>
    cases s with
    | code text => simp [continuedCode, continueLinesMany, ih]
    | comment owner side text => simpa [continuedComment, codeText, Segment.isCode] using ih

theorem notesContinued : (a.notes r m side).map Segment.continued^[n] = a.notes r (n + m) side := by
  simp [Arena.notes, continuedComment, Function.iterate_add_apply]

theorem annotateNotes (body : List Segment) :
    annotate a r body = a.notes r 0 .before ++ body ++ a.notes r 0 .after := by
  unfold annotate Arena.notes Arena.note
  cases a.commentsOf r with
  | none => simp
  | some c =>
    obtain ⟨before, after⟩ := c
    cases before <;> cases after <;> simp [blockComment, Comments.at]

theorem segmentsStep (depth : Nat) : segmentsWithin a (depth + 1) r =
    (assemble (segmentsWithin a depth) (pieces a r)).map fun body =>
      a.notes r 0 .before ++ body.map Segment.continued^[a.macroBodies r] ++ a.notes r 0 .after := by
  simp only [segmentsWithin, continuedBody, annotateNotes]
  cases assemble (segmentsWithin a depth) (pieces a r) <;> rfl

theorem segmentsIff {depth : Nat} : segmentsWithin a (depth + 1) r = .ok segs ↔
    ∃ body, assemble (segmentsWithin a depth) (pieces a r) = .ok body ∧
      a.notes r 0 .before ++ body.map Segment.continued^[a.macroBodies r] ++ a.notes r 0 .after = segs := by
  rw [segmentsStep]
  cases assemble (segmentsWithin a depth) (pieces a r) <;> simp [Except.map]

end Segments

section Erased

variable {a : Arena} {r : NodeRef} {table : List (NodeRef × Comments)}

theorem nodeCommented {c : Category} (h : Handle c) : (a.commentedBy table).node h = a.node h := by
  cases c <;> rfl

theorem declNameCommented (d : DeclRef) : (a.commentedBy table).declName d = a.declName d := by
  have within (depth : Nat) : (a.commentedBy table).declNameWithin depth d = a.declNameWithin depth d := by
    induction depth generalizing d with
    | zero => rfl
    | succ depth ih =>
      unfold Arena.declNameWithin
      simp only [nodeCommented, ih]
      rfl
  exact within _

theorem typeCommented (n : TypeNode) : Render.type (a.commentedBy table) n = Render.type a n := by
  cases n with
  | named d =>
    simp only [Render.type, namedType, nodeCommented, declNameCommented]
    rfl
  | instantiation template args => simp only [Render.type, instantiation, declNameCommented]
  | _ => rfl

theorem exprCommented (n : ExprNode) : Render.expr (a.commentedBy table) n = Render.expr a n := by
  cases n with
  | var d => simp only [Render.expr, declNameCommented]
  | instantiation template args => simp only [Render.expr, instantiation, declNameCommented]
  | _ => rfl

theorem piecesCommented (r : NodeRef) : pieces (a.commentedBy table) r = pieces a r := by
  have written {c : Category} (n : Node c) : node (a.commentedBy table) c n = node a c n := by
    cases c with
    | type => exact typeCommented n
    | expr => exact exprCommented n
    | decl => cases n <;> rfl
    | stmt | directive | scope => rfl
  simp only [pieces, nodeCommented, written]

theorem macroBodiesCommented (r : NodeRef) : (a.commentedBy table).macroBodies r = a.macroBodies r := by
  obtain ⟨c, arena, index⟩ := r
  cases c <;> rfl

theorem assembleErased {child other : NodeRef → Except Misuse (List Segment)} {ps : Pieces}
    (same : ∀ k, other k = (child k).map (·.filter (·.isCode))) :
    assemble other ps = (assemble child ps).map (·.filter (·.isCode)) := by
  induction ps with
  | nil => rfl
  | cons p ps ih =>
    cases p with
    | code text =>
      simp only [assemble, ih]
      cases assemble child ps <;> rfl
    | child k =>
      simp only [assemble, ih, same]
      cases child k <;> cases assemble child ps <;> simp [bind, Except.bind, pure, Except.pure, Except.map]
    | fault cause => rfl

theorem erasedContinued (n : Nat) (segs : List Segment) :
    (segs.map Segment.continued^[n]).filter (·.isCode) = (segs.filter (·.isCode)).map Segment.continued^[n] := by
  have same : Segment.isCode ∘ Segment.continued^[n] = Segment.isCode := funext (continuedKind n)
  rw [List.filter_map, same]

/-- What is written where nothing is commented is what is written otherwise, less the comments. -/
theorem segmentsErased (a : Arena) (table : List (NodeRef × Comments)) (r : NodeRef) :
    a.uncommented.segments r = ((a.commentedBy table).segments r).map (·.filter (·.isCode)) := by
  have within (depth : Nat) : ∀ r, segmentsWithin a.uncommented depth r =
      (segmentsWithin (a.commentedBy table) depth r).map (·.filter (·.isCode)) := by
    induction depth with
    | zero => exact fun _ => rfl
    | succ depth ih =>
      intro r
      have none (side : Side) : a.uncommented.notes r 0 side = [] := rfl
      have bodies : a.uncommented.macroBodies r = a.macroBodies r := macroBodiesCommented r
      have parts : pieces a.uncommented r = pieces a r := piecesCommented r
      rw [segmentsStep, segmentsStep, none, none, parts, bodies, piecesCommented, macroBodiesCommented,
        assembleErased ih]
      cases assemble (segmentsWithin (a.commentedBy table) depth) (pieces a r) with
      | error cause => rfl
      | ok body => simp [Except.map, erasedContinued]
  exact within _ r

theorem renderedErased (a : Arena) (table : List (NodeRef × Comments)) (r : NodeRef) :
    a.uncommented.render r = ((a.commentedBy table).segments r).map codeText := by
  unfold Arena.render
  rw [segmentsErased a table]
  cases (a.commentedBy table).segments r <;> rfl

theorem renderedUncommented :
    (∃ text, (a.commentedBy table).render r = .ok text) ↔ ∃ text, a.uncommented.render r = .ok text := by
  rw [renderedErased a table]
  unfold Arena.render
  cases (a.commentedBy table).segments r <;> simp [Except.map, bind, Except.bind, pure, Except.pure]

end Erased

section Written

variable {a : Arena} {r : NodeRef} {segs : List Segment}

theorem assembledComment {child : NodeRef → Except Misuse (List Segment)} {ps : Pieces} {s : Segment}
    (comment : s.isCode = false) (done : assemble child ps = .ok segs) :
    s ∈ segs ↔ ∃ k inside, .child k ∈ ps ∧ child k = .ok inside ∧ s ∈ inside := by
  induction ps generalizing segs with
  | nil =>
    cases done
    simp
  | cons p ps ih =>
    obtain ⟨head, tail, first, rest, rfl⟩ := assembleCons.mp done
    rw [List.mem_append, ih rest]
    cases p with
    | code text =>
      cases first
      simp [show s ≠ .code text from fun same => by simp [same, Segment.isCode] at comment]
    | child k =>
      have first : child k = .ok head := first
      constructor
      · rintro (mem | ⟨l, inside, listed, done, mem⟩)
        · exact ⟨k, head, List.mem_cons_self .., first, mem⟩
        · exact ⟨l, inside, List.mem_cons_of_mem _ listed, done, mem⟩
      · rintro ⟨l, inside, listed, done, mem⟩
        rcases List.mem_cons.mp listed with same | listed
        · cases same
          cases first.symm.trans done
          exact .inl mem
        · exact .inr ⟨l, inside, listed, done, mem⟩
    | fault cause => contradiction

theorem commentsWritten {depth : Nat} {s : Segment} (comment : s.isCode = false)
    (done : segmentsWithin a depth r = .ok segs) :
    s ∈ segs ↔ ∃ k bodies side, a.WrittenIn r bodies k ∧ s ∈ a.notes k bodies side := by
  -- by induction on the depth: a comment in a part is continued once more where the node is a macro body
  induction depth generalizing r segs s with
  | zero => contradiction
  | succ depth ih =>
    obtain ⟨body, written, rfl⟩ := segmentsIff.mp done
    simp only [List.mem_append, List.mem_map]
    constructor
    · rintro ((mem | ⟨s, mem, rfl⟩) | mem)
      · exact ⟨r, 0, .before, .here r, mem⟩
      · rw [continuedKind] at comment
        obtain ⟨k, inside, writes, done, mem⟩ := (assembledComment comment written).mp mem
        obtain ⟨l, bodies, side, within, mem⟩ := (ih comment done).mp mem
        refine ⟨l, a.macroBodies r + bodies, side, .part writes within, ?_⟩
        rw [← notesContinued]
        exact List.mem_map_of_mem mem
      · exact ⟨r, 0, .after, .here r, mem⟩
    · rintro ⟨k, bodies, side, within, mem⟩
      cases within with
      | here =>
        cases side with
        | before => exact .inl (.inl mem)
        | after => exact .inr mem
      | part writes rest =>
        rw [← notesContinued] at mem
        obtain ⟨s, listed, rfl⟩ := List.mem_map.mp mem
        rw [continuedKind] at comment
        obtain ⟨inside, done⟩ := (assembledAll written).2 _ writes
        have below := (ih comment done).mpr ⟨_, _, _, rest, listed⟩
        exact .inl (.inr ⟨s, (assembledComment comment written).mpr ⟨_, inside, writes, done, below⟩, rfl⟩)

theorem assembledBrackets {child : NodeRef → Except Misuse (List Segment)} {ps : Pieces} {bodies inside : Nat}
    (deeper : inside = bodies + a.macroBodies r) (parts : ∀ k, .child k ∈ ps → a.Writes r k)
    (each : ∀ k segs, child k = .ok segs → ∃ text inner, a.uncommented.render k = .ok text ∧
      codeText inner = continueLines^[inside] text ∧ a.Bracketed k inside inner ∧
      segs.map Segment.continued^[inside] = a.notes k inside .before ++ inner ++ a.notes k inside .after)
    (done : assemble child ps = .ok segs) : a.Bracketed r bodies (segs.map Segment.continued^[inside]) := by
  induction ps generalizing segs with
  | nil =>
    cases done
    exact .nil
  | cons p ps ih =>
    obtain ⟨head, tail, first, rest, rfl⟩ := assembleCons.mp done
    have others := ih (fun k mem => parts k (List.mem_cons_of_mem _ mem)) rest
    rw [List.map_append]
    cases p with
    | code text =>
      cases first
      rw [List.map_singleton, continuedCode]
      exact .code _ others
    | child k =>
      obtain ⟨text, inner, bare, own, nested, whole⟩ := each k head first
      rw [whole]
      exact .part (parts k (List.mem_cons_self ..)) deeper bare own nested others
    | fault cause => contradiction

theorem ownCode {depth : Nat} (done : segmentsWithin a depth r = .ok segs) :
    a.uncommented.render r = .ok (codeText segs) := by
  have own : (a.commentedBy a.comments).segments r = .ok segs := segmentsBounded done
  rw [renderedErased a a.comments, own]
  rfl

theorem segmentsBracketed {depth : Nat} (done : segmentsWithin a depth r = .ok segs) (inside : Nat) :
    ∃ text inner, a.uncommented.render r = .ok text ∧ codeText inner = continueLines^[inside] text ∧
      a.Bracketed r inside inner ∧
      segs.map Segment.continued^[inside] = a.notes r inside .before ++ inner ++ a.notes r inside .after := by
  -- whatever macro bodies are around the node, so that the hypothesis holds of the parts within theirs
  induction depth generalizing r segs inside with
  | zero => contradiction
  | succ depth ih =>
    have bare := ownCode done
    obtain ⟨body, written, rfl⟩ := segmentsIff.mp done
    refine ⟨_, (body.map Segment.continued^[a.macroBodies r]).map Segment.continued^[inside], bare, ?_, ?_, ?_⟩
    · rw [codeTextContinued, codeTextAppend, codeTextAppend, codeTextNotes, codeTextNotes, String.empty_append,
        String.append_empty]
    · rw [List.map_map, ← Function.iterate_add]
      exact assembledBrackets rfl (fun _ => id) (fun k segs below => ih below _) written
    · simp [notesContinued]

end Written

/-- A way to cut the text of a node into code and comments. -/
structure Arena.Splits (a : Arena) (r : NodeRef) (text : String) (segments : List Segment) : Prop where
  joined : String.join (segments.map (·.text)) = text
  code : a.uncommented.render r = .ok (codeText segments)
  nested : ∃ inner, segments = a.notes r 0 .before ++ inner ++ a.notes r 0 .after ∧ a.Bracketed r 0 inner
  comments : ∀ s : Segment, s.isCode = false →
    (s ∈ segments ↔ ∃ k bodies side, a.WrittenIn r bodies k ∧ s ∈ a.notes k bodies side)

/-- Comments change neither what can be written nor the code that is written, whatever they are attached to. -/
theorem commentsTransparent (a : Arena) (table : List (NodeRef × Comments)) (r : NodeRef) :
    ((∃ text, (a.commentedBy table).render r = .ok text) ↔ ∃ text, a.uncommented.render r = .ok text) ∧
      ∀ text, (a.commentedBy table).render r = .ok text →
        ∃ segments, (a.commentedBy table).Splits r text segments := by
  refine ⟨renderedUncommented, fun text rendered => ?_⟩
  obtain ⟨segments, done, joined⟩ := renderedSegments rendered
  obtain ⟨_, inner, _, _, nested, whole⟩ := segmentsBracketed done 0
  refine ⟨segments, joined, ownCode done, ⟨inner, ?_, nested⟩, fun s comment => commentsWritten comment done⟩
  simpa using whole

theorem macroCommentSplit : ∃ a segments, World.macroWritten.session.arenas[0]? = some a ∧
    World.macroWritten.Reachable .strict ∧
    a.Splits ⟨.directive, 0, 1⟩ "\n#define F(x,y) x\\\\\nx/* \\\n */y\n" segments ∧
    a.uncommented.render ⟨.directive, 0, 1⟩ = .ok "\n#define F(x,y) x\\\\\nxy\n" ∧
    .comment ⟨.stmt, 0, 0⟩ .before "/* \\\n */" ∈ segments := by
  obtain ⟨a, here⟩ : ∃ a, World.macroWritten.session.arenas[0]? = some a := ⟨_, rfl⟩
  have rendered : (a.commentedBy a.comments).render ⟨.directive, 0, 1⟩ =
      .ok "\n#define F(x,y) x\\\\\nx/* \\\n */y\n" := by
    cases here
    rfl
  have bare : a.uncommented.render ⟨.directive, 0, 1⟩ = .ok "\n#define F(x,y) x\\\\\nxy\n" := by
    cases here
    rfl
  obtain ⟨segments, split⟩ := (commentsTransparent a a.comments ⟨.directive, 0, 1⟩).2 _ rendered
  have body : .child ⟨.scope, 0, 3⟩ ∈ pieces a ⟨.directive, 0, 1⟩ := by cases here; decide
  have entry : .child ⟨.stmt, 0, 0⟩ ∈ pieces a ⟨.scope, 0, 3⟩ := by cases here; decide
  have block : .comment ⟨.stmt, 0, 0⟩ .before "/* \\\n */" ∈
      a.notes ⟨.stmt, 0, 0⟩ (a.macroBodies ⟨.directive, 0, 1⟩ + (a.macroBodies ⟨.scope, 0, 3⟩ + 0)) .before := by
    cases here
    decide
  have listed := (split.comments _ rfl).mpr ⟨_, _, _, .part body (.part entry (.here _)), block⟩
  exact ⟨a, segments, here, World.macroWrittenReachable, split, bare, listed⟩

end CSource
