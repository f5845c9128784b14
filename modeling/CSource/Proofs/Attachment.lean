import CSource.Proofs.Transparency

/-!
Comments on declared types. A declarator looks through functions, arrays and pointers to functions and writes their
parts itself, so what is attached to such a type is not written with the declaration, unless another part of the
declaration shows the type. The comments of every other declared type stand around it.
-/

namespace CSource

open Pieces Render Relation Text

namespace Arena

/-- The declaration of something of the type: a variable or parameter of any shape, or a name for the type. -/
inductive Declares (a : Arena) (d : DeclRef) : TypeRef → Prop where
  | var {data : VarDecl} (found : a.node d = .ok (.var data)) : Declares a d data.ty
  | typeDef {tag ty : TypeRef} {name : QualName} (found : a.node d = .ok (.typeDef tag))
      (named : a.node tag = .ok (.synonym name ty)) : Declares a d ty
  | usingType {tag ty : TypeRef} {name : QualName} (found : a.node d = .ok (.usingType tag))
      (named : a.node tag = .ok (.synonym name ty)) : Declares a d ty

/-- The types that a declarator looks through. -/
inductive Opened (a : Arena) (ty : TypeRef) : Prop where
  | function {ret : TypeRef} {params : List TypeRef} {variadic : Bool}
      (found : a.node ty = .ok (.function ret params variadic))
  | array {element : TypeRef} {sizes : List ExprRef} (found : a.node ty = .ok (.array element sizes))
  | pointer {pointee ret : TypeRef} {params : List TypeRef} {variadic : Bool}
      (found : a.node ty = .ok (.pointer pointee)) (target : a.node pointee = .ok (.function ret params variadic))

/-- The declared type is written as a node: by a using declaration always, by a declarator unless it looks through. -/
def Direct (a : Arena) (d : DeclRef) (ty : TypeRef) : Prop :=
  (∃ tag, a.node d = .ok (.usingType tag)) ∨ ¬a.Opened ty

def besides (a : Arena) (d : DeclRef) : List NodeRef :=
  match a.node d with
  | .ok (.var data) => data.shape.parts ++ optionRefs data.init
  | _ => []

end Arena

section Declarator

variable {a : Arena} {d : DeclRef} {ty : TypeRef} {k : NodeRef} {name : String}

theorem declaratorChild (clean : Clean (declarator a ty name)) :
    .child k ∈ declarator a ty name ↔ k ∈ a.declaratorParts ty := by
  obtain ⟨n, found⟩ := cleanLookup clean
  have targets : ∀ pointee, n = .pointer pointee → ∃ m, a.node pointee = .ok m := by
    rintro pointee rfl
    rw [declarator, found] at clean
    have inner : Clean (Pieces.ofExcept (a.node pointee >>= _)) := clean
    exact cleanLookup inner
  rw [← childStep, stepsDeclaratorFound found targets]
  simp

theorem directParts (direct : ¬a.Opened ty) : a.declaratorParts ty = [ty.ref] := by
  unfold Arena.declaratorParts
  cases found : a.node ty with
  | error cause => rfl
  | ok n =>
    cases n with
    | function ret params variadic => exact absurd (.function found) direct
    | array element sizes => exact absurd (.array found) direct
    | pointer pointee =>
      dsimp only
      cases target : a.node pointee with
      | error cause => rfl
      | ok m =>
        cases m with
        | function ret params variadic => exact absurd (.pointer found target) direct
        | _ => rfl
    | _ => rfl

theorem openedParts (opened : a.Opened ty) (part : k ∈ a.declaratorParts ty) : TransGen a.Writes ty.ref k := by
  have written {ty : TypeRef} {n : TypeNode} {k : NodeRef} (found : a.node ty = .ok n)
      (inside : .ok k ∈ steps (type a n)) : a.Writes ty.ref k := by
    unfold Arena.Writes
    rw [Arena.piecesOf found]
    exact childStep.mp inside
  unfold Arena.declaratorParts at part
  cases opened with
  | function found =>
    rw [found] at part
    exact .single (written found (by simpa [type] using part))
  | array found =>
    rw [found] at part
    exact .single (written found (by simpa [type] using part))
  | pointer found target =>
    rw [found] at part
    simp only [target] at part
    exact .head (written found (by simp [type])) (.single (written target (by simpa [type] using part)))

theorem declarationWrites (declares : a.Declares d ty) (clean : Clean (pieces a d.ref)) :
    ∃ head, (a.Direct d ty → head = [ty.ref]) ∧ (¬a.Direct d ty → head = a.declaratorParts ty) ∧
      ∀ k, a.Writes d.ref k ↔ k ∈ head ∨ k ∈ a.besides d := by
  cases declares with
  | @var data found =>
    have shape : pieces a d.ref = var a data := Arena.piecesOf found
    rw [shape, var] at clean
    have named := (cleanAppend.mp (cleanAppend.mp (cleanAppend.mp clean).1).1).2
    refine ⟨a.declaratorParts data.ty, fun direct => directParts (direct.resolve_left (by simp [found])), fun _ => rfl,
      fun k => ?_⟩
    unfold Arena.Writes Arena.besides
    rw [found, shape, var, ← declaratorChild named, ← childStep]
    simp [initializer, childStep, optionRefs]
  | @typeDef tag ty name found named =>
    have shape : pieces a d.ref = .code "typedef " :: declarator a ty name.text := by
      rw [Arena.piecesOf found]
      simp [Render.node, decl, synonymAt, named, Pieces.ofExcept, bind, Except.bind, pure, Except.pure]
    rw [shape] at clean
    refine ⟨a.declaratorParts ty, fun direct => directParts (direct.resolve_left (by simp [found])), fun _ => rfl,
      fun k => ?_⟩
    unfold Arena.Writes Arena.besides
    rw [found, shape, ← declaratorChild (cleanCons.mp clean).2]
    simp
  | @usingType tag ty name found named =>
    have shape : pieces a d.ref = .code "using " :: .code name.text :: .code "=" :: ofHandle ty := by
      rw [Arena.piecesOf found]
      simp [Render.node, decl, synonymAt, named, Pieces.ofExcept, bind, Except.bind, pure, Except.pure]
    refine ⟨[ty.ref], fun _ => rfl, fun bypassed => absurd (.inl ⟨tag, found⟩) bypassed, fun k => ?_⟩
    unfold Arena.Writes Arena.besides
    rw [found, shape]
    simp [ofHandle]

end Declarator

section Texts

variable {a : Arena} {d : DeclRef} {ty : TypeRef} {r k : NodeRef} {text : String} {segs : List Segment}

theorem directText (writes : a.Writes d.ref ty.ref) (rendered : a.render d.ref = .ok text) :
    ∃ pre code post, a.Spells (pieces a ty.ref) code ∧
      text = a.commented d.ref (pre ++ a.commented ty.ref code ++ post) := by
  obtain ⟨inner, spelled, rfl⟩ := renderedIff.mp rendered
  obtain ⟨ps, qs, split⟩ := List.append_of_mem writes
  rw [split, Arena.spellsAppend] at spelled
  obtain ⟨pre, _, _, later, rfl⟩ := spelled
  obtain ⟨typed, post, written, _, rfl⟩ := Arena.spellsChild.mp later
  obtain ⟨code, own, rfl⟩ := renderedIff.mp written
  refine ⟨pre, code, post, own, ?_⟩
  rw [← String.append_assoc]
  rfl

theorem shownWrittenIn (shows : a.Shows r k) : ∃ bodies, a.WrittenIn r bodies k := by
  induction shows using ReflTransGen.head_induction_on with
  | refl => exact ⟨0, .here k⟩
  | head writes _ ih =>
    obtain ⟨bodies, rest⟩ := ih
    exact ⟨_, .part writes rest⟩

theorem shownText {side : Side} {note : String} (shows : a.Shows r k) (noted : a.note k side = some note)
    (rendered : a.render r = .ok text) :
    ∃ bodies pre post, text = pre ++ continueLines^[bodies] ("/* " ++ note ++ " */") ++ post := by
  obtain ⟨segs, done, rfl⟩ := renderedSegments rendered
  obtain ⟨bodies, within⟩ := shownWrittenIn shows
  have block : .comment k side (continueLines^[bodies] ("/* " ++ note ++ " */")) ∈ a.notes k bodies side := by
    simp [Arena.notes, noted]
  obtain ⟨before, after, split⟩ := List.append_of_mem ((commentsWritten rfl done).mpr ⟨k, bodies, side, within, block⟩)
  refine ⟨bodies, String.join (before.map (·.text)), String.join (after.map (·.text)), ?_⟩
  simp [split, Segment.text, String.join_append, String.append_assoc]

theorem openedApart (opened : a.Opened ty) (part : k ∈ a.declaratorParts ty) {depth : Nat}
    (done : segmentsWithin a depth k = .ok segs) : ¬a.Shows k ty.ref := by
  intro shows
  -- the type would be written below its own parts
  obtain ⟨m, writes, down⟩ := TransGen.head'_iff.mp (openedParts opened part)
  obtain ⟨whole, told⟩ := shownWithin done shows
  exact writtenApart told writes (down.trans shows)

theorem unshownText {table : List (NodeRef × Comments)} (apart : ¬a.Shows r k)
    (same : ∀ l, l ≠ k → (a.commentedBy table).commentsOf l = a.commentsOf l) (rendered : a.render r = .ok text) :
    (a.commentedBy table).render r = .ok text := by
  have mirrored : Mirrored .same a (a.commentedBy table) r := by
    refine ⟨rfl, fun l _ n found => ?_, fun l shows => same l ?_⟩
    · rw [Node.renameSame, ← found]
      exact nodeCommented l.handle
    · rintro rfl
      exact apart shows
  exact mirrored.text rendered

end Texts

/-- The comments of a declared type stand around the type where the declaration writes it as a node. A declarator that
looks through the type drops them: they are written if something besides shows the type, and otherwise the text is the
same whatever is attached to the type. -/
theorem declaredTypeComments {a : Arena} {d : DeclRef} {ty : TypeRef} {text : String} (declares : a.Declares d ty)
    (rendered : a.render d.ref = .ok text) :
    (a.Direct d ty → ∃ pre code post, a.Spells (pieces a ty.ref) code ∧
      text = a.commented d.ref (pre ++ a.commented ty.ref code ++ post)) ∧
    (¬a.Direct d ty → (∃ k ∈ a.besides d, a.Shows k ty.ref) → ∀ side note, a.note ty.ref side = some note →
      ∃ bodies pre post, text = pre ++ continueLines^[bodies] ("/* " ++ note ++ " */") ++ post) ∧
    (¬a.Direct d ty → (¬∃ k ∈ a.besides d, a.Shows k ty.ref) → ∀ table,
      (∀ r, r ≠ ty.ref → (a.commentedBy table).commentsOf r = a.commentsOf r) →
        (a.commentedBy table).render d.ref = .ok text) := by
  obtain ⟨segs, done, _⟩ := renderedSegments rendered
  obtain ⟨body, written, _⟩ := segmentsIff.mp done
  obtain ⟨clean, each⟩ := assembledAll written
  obtain ⟨head, direct, opened, writes⟩ := declarationWrites declares clean
  refine ⟨fun whole => ?_, fun _ ⟨k, listed, shows⟩ side note noted => ?_, fun bypassed unshown table same => ?_⟩
  · refine directText ((writes _).mpr (.inl ?_)) rendered
    rw [direct whole]
    exact List.mem_singleton_self _
  · exact shownText (.head ((writes k).mpr (.inr listed)) shows) noted rendered
  · refine unshownText (fun shows => ?_) same rendered
    have through : a.Opened ty := not_not.mp (not_or.mp bypassed).2
    rcases ReflTransGen.cases_head shows with itself | ⟨k, first, rest⟩
    · exact absurd (congrArg NodeRef.category itself) nofun
    · rcases (writes k).mp first with part | listed
      · rw [opened bypassed] at part
        obtain ⟨inside, told⟩ := each k first
        exact openedApart through part told rest
      · exact unshown ⟨k, listed, rest⟩

def World.arrayNoted : World :=
  (((((((empty.grow .cxx).act 0 (.type (.raw "int"))).act 0 (.expr (.raw "3"))).act 0
    (.type (.array ⟨0, 1⟩ [⟨0, 0⟩]))).act 0 (.commentBefore ⟨.type, 0, 2⟩ "note")).act 0
    (.decl (.var (.ofString "x") ⟨0, 2⟩ none))).act 0 .newTopLevel).act 0
    (.putAny ⟨.topLevel, ⟨0, 0⟩⟩ (.usingType (.ofString "U") ⟨0, 2⟩))

theorem World.arrayNotedReachable : arrayNoted.Reachable .strict := by
  refine .act (.act (.act (.act (.act (.act (.act (Reachable.start.grow .cxx) ?_) ?_) ?_) ?_) ?_) ?_) ?_
  all_goals exact allowsHeld (by decide) rfl (by decide)

theorem arrayNoteDropped : ∃ a, World.arrayNoted.session.arenas[0]? = some a ∧ World.arrayNoted.Reachable .strict ∧
    a.render ⟨.type, 0, 2⟩ = .ok "/* note */int[3]" ∧
    a.render ⟨.decl, 0, 0⟩ = .ok "int x[3]" ∧ (a.commentedBy []).render ⟨.decl, 0, 0⟩ = .ok "int x[3]" ∧
    a.render ⟨.decl, 0, 1⟩ = .ok "using U=/* note */int[3]" ∧
    ∃ pre code post, "using U=/* note */int[3]" =
      a.commented ⟨.decl, 0, 1⟩ (pre ++ a.commented ⟨.type, 0, 2⟩ code ++ post) := by
  obtain ⟨a, here⟩ : ∃ a, World.arrayNoted.session.arenas[0]? = some a := ⟨_, rfl⟩
  have array : a.node (⟨0, 2⟩ : TypeRef) = .ok (.array ⟨0, 1⟩ [⟨0, 0⟩]) := by cases here; rfl
  have x : a.node (⟨0, 0⟩ : DeclRef) = .ok (.var ⟨.ofString "x", ⟨0, 2⟩, none, .plain, .none⟩) := by cases here; rfl
  have synonym : a.node (⟨0, 1⟩ : DeclRef) = .ok (.usingType ⟨0, 3⟩) := by cases here; rfl
  have named : a.node (⟨0, 3⟩ : TypeRef) = .ok (.synonym (.ofString "U") ⟨0, 2⟩) := by cases here; rfl
  have alone : a.render ⟨.type, 0, 2⟩ = .ok "/* note */int[3]" := by cases here; rfl
  have declared : a.render (⟨0, 0⟩ : DeclRef).ref = .ok "int x[3]" := by cases here; rfl
  have defined : a.render (⟨0, 1⟩ : DeclRef).ref = .ok "using U=/* note */int[3]" := by cases here; rfl
  have bypassed : ¬a.Direct ⟨0, 0⟩ ⟨0, 2⟩ := by
    rintro (⟨tag, other⟩ | closed)
    · cases x.symm.trans other
    · exact closed (.array array)
  have only : ∀ r, r ≠ (⟨0, 2⟩ : TypeRef).ref → (a.commentedBy []).commentsOf r = a.commentsOf r := by
    intro r other
    have listed : a.comments = [((⟨0, 2⟩ : TypeRef).ref, ⟨some "note", none⟩)] := by cases here; rfl
    simp [Arena.commentsOf, Arena.commentedBy, listed, List.lookup_cons, beq_false_of_ne other]
  have dropped := (declaredTypeComments (.var x) declared).2.2 bypassed (by simp [Arena.besides, x, VarShape.parts,
    optionRefs]) [] only
  have kept := (declaredTypeComments (.usingType synonym named) defined).1 (.inl ⟨_, synonym⟩)
  obtain ⟨pre, code, post, _, whole⟩ := kept
  exact ⟨a, here, World.arrayNotedReachable, alone, declared, dropped, defined, pre, code, post, whole⟩

end CSource
