import CSource.Proofs.Closed
import CSource.Proofs.Functions
import CSource.Proofs.Spelling

/-!
The two halves of a split function. Both are written from the one record of the function, so the return type and the
parameters are the same text in both, whatever was changed in between; what differs is listed here word by word.
-/

namespace CSource

open Pieces Render

def wordsOf (flags : List (Bool × String)) : List String := (flags.filter (·.1)).map (·.2)

theorem wordsKept (keep : String → Bool) (flags : List (Bool × String)) :
    wordsOf (flags.map fun flag => (flag.1 && keep flag.2, flag.2)) = (wordsOf flags).filter keep := by
  induction flags with
  | nil => rfl
  | cons flag flags ih =>
    obtain ⟨set, word⟩ := flag
    cases set <;> cases kept : keep word <;> simp_all [wordsOf]

namespace Arena

def withComments (a : Arena) (table : List (NodeRef × Comments)) : Arena := { a with comments := table }

@[simp] theorem nodeWithComments (a : Arena) (table : List (NodeRef × Comments)) {c : Category} (h : Handle c) :
    (a.withComments table).node h = a.node h := by
  cases c <;> rfl

@[simp] theorem tagNameWithComments (a : Arena) (table : List (NodeRef × Comments)) (ty : TypeRef) :
    (a.withComments table).tagName ty = a.tagName ty := by
  simp [Arena.tagName]

theorem spellsDecl {a : Arena} {d : DeclRef} {n : DeclNode} {text : String} (here : a.node d = .ok n)
    (bare : a.commentsOf d.ref = none) (rendered : a.render d.ref = .ok text) : a.Spells (Render.decl a n) text := by
  have spelled := spellsRendered bare rfl rendered
  rwa [piecesOf here] at spelled

end Arena

def inClassSpecifiers : List String := ["static ", "virtual ", "explicit "]

def inClassTrailers : List String := ["override", "final"]

namespace FuncDecl

variable (f : FuncDecl)

def specifierFlags : List (Bool × String) :=
  [(f.quals.isExternal && f.method.isNone, "extern "), (f.quals.isStatic, "static "),
    (f.quals.isConstexpr, "constexpr "), (f.quals.isInline, "inline "),
    ((methodQualifiers f).isVirtual, "virtual "), ((methodQualifiers f).isExplicit, "explicit ")]

def trailerFlags : List (Bool × String) :=
  [((methodQualifiers f).isConst, "const"), ((methodQualifiers f).isOverride, "override"),
    ((methodQualifiers f).isFinal, "final")]

def specifiers : List String := wordsOf f.specifierFlags

def trailers : List String := wordsOf f.trailerFlags

def ReturnText (a : Arena) (text : String) : Prop :=
  match f.ret with
  | some ty => ∃ written, a.render ty.ref = .ok written ∧ text = written ++ " "
  | none => text = ""

def variadicText : String :=
  if f.variadic then (if f.params.isEmpty then "..." else ",...") else ""

def ParamText (a : Arena) (text : String) : Prop :=
  ∃ texts, List.Forall₂ (fun d t => a.render d.ref = .ok t) f.params texts ∧
    text = ",".intercalate texts ++ f.variadicText

end FuncDecl

def MemberInit.Text (a : Arena) (i : MemberInit) (text : String) : Prop :=
  ∃ texts, List.Forall₂ (fun e t => a.render e.ref = .ok t) i.args texts ∧
    text = i.member.text ++ "(" ++ ",".intercalate texts ++ ")"

def FuncDecl.InitText (f : FuncDecl) (a : Arena) (text : String) : Prop :=
  ∃ texts, List.Forall₂ (MemberInit.Text a) f.inits texts ∧
    text = if f.inits.isEmpty then "" else ":" ++ ",".intercalate texts

def FuncDecl.BodyText (f : FuncDecl) (a : Arena) (text : String) : Prop :=
  ∃ scope, f.body = some scope ∧ a.render scope.ref = .ok text

section Spelling

variable {a : Arena} {f : FuncDecl} {text : String}

theorem spellsReturn :
    a.Spells (ofOption (fun ret => .child ret.ref :: ofText " ") f.ret) text ↔ f.ReturnText a text := by
  unfold FuncDecl.ReturnText
  cases f.ret with
  | none => exact Arena.spellsNil
  | some ty => simp [ofOption, Arena.spellsChild, Arena.spellsOfText]

theorem spellsParams :
    a.Spells (Pieces.params f.params f.variadic) text ↔ ∃ inner, f.ParamText a inner ∧ text = "(" ++ inner ++ ")" := by
  have mark (tail : String) : a.Spells (variadicMark (!f.params.isEmpty) f.variadic) tail ↔ tail = f.variadicText := by
    unfold variadicMark FuncDecl.variadicText
    cases f.variadic with
    | false => exact Arena.spellsNil
    | true => cases f.params <;> exact Arena.spellsOfText
  simp only [Pieces.params, Arena.spellsInParens, Arena.spellsAppend, Arena.spellsCommaHandles, mark,
    FuncDecl.ParamText]
  constructor
  · rintro ⟨_, ⟨_, _, ⟨texts, each, rfl⟩, rfl, rfl⟩, rfl⟩
    exact ⟨_, ⟨texts, each, rfl⟩, rfl⟩
  · rintro ⟨_, ⟨texts, each, rfl⟩, rfl⟩
    exact ⟨_, ⟨_, _, ⟨texts, each, rfl⟩, rfl, rfl⟩, rfl⟩

theorem spellsTail {flags : List (Bool × String)} :
    a.Spells (separated " " ((flagged flags).map ([·]))) text ↔ text = " ".intercalate (wordsOf flags) := by
  have codes : (flagged flags).map ([·]) = (wordsOf flags).map ofText := by simp [flagged, wordsOf, ofText]
  rw [codes, Arena.spellsWords]

theorem spellsMemberInit {i : MemberInit} : a.Spells (memberInit i) text ↔ i.Text a text := by
  simp only [memberInit, enclosed, Arena.spellsCode, MemberInit.Text]
  simp [Arena.spellsInParens, Arena.spellsCommaHandles, String.append_assoc]

theorem spellsMemberInits : a.Spells (memberInits f.inits) text ↔ f.InitText a text := by
  unfold FuncDecl.InitText
  cases f.inits with
  | nil => simp [memberInits, Arena.spellsNil]
  | cons i inits =>
    simp only [memberInits, Arena.spellsCode, Arena.spellsSeparated, List.forall₂_map_left_iff, spellsMemberInit]
    simp

theorem spellsBlock {scope : ScopeRef} (filled : f.body = some scope) :
    a.Spells (block scope) text ↔ ∃ inner, f.BodyText a inner ∧ text = "\x7b" ++ inner ++ "\x7d" := by
  simp [block, Arena.spellsInBraces, Arena.spellsOfHandle, FuncDecl.BodyText, filled]

/-- The words of a signature of the given style: only the definition of a member has not all of them. -/
def FuncDecl.wordsAt (f : FuncDecl) (style : SignatureStyle) (inClass words : List String) : List String :=
  if f.method.isSome && style == .define then words.filter (· ∉ inClass) else words

theorem spellsSpecifiers {style : SignatureStyle} :
    a.Spells (signatureQualifiers f style) text ↔
      text = String.join (f.wordsAt style inClassSpecifiers f.specifiers) := by
  have kept := wordsKept (· ∉ inClassSpecifiers) f.specifierFlags
  unfold signatureQualifiers FuncDecl.wordsAt
  rw [Arena.spellsFlagged]
  change text = String.join (wordsOf _) ↔ _
  unfold FuncDecl.specifiers
  rw [← kept]
  cases linked : f.method with
  | none => simp [FuncDecl.specifierFlags, inAggregate, methodQualifiers, linked, MethodQualifiers.none]
  | some m => cases style <;> simp [bne, beq_eq_decide, FuncDecl.specifierFlags, inAggregate, linked, inClassSpecifiers]

theorem spellsTrailers {style : SignatureStyle} :
    a.Spells (signatureTail f style) text ↔ text = " ".intercalate (f.wordsAt style inClassTrailers f.trailers) := by
  have kept := wordsKept (· ∉ inClassTrailers) f.trailerFlags
  unfold signatureTail FuncDecl.wordsAt FuncDecl.trailers
  rw [spellsTail, ← kept]
  cases linked : f.method with
  | none => simp [FuncDecl.trailerFlags, inAggregate, methodQualifiers, linked, MethodQualifiers.none]
  | some m => cases style <;> simp [bne, beq_eq_decide, FuncDecl.trailerFlags, inAggregate, linked, inClassTrailers]

theorem spellsSignature {style : SignatureStyle} :
    a.Spells (signature a f style) text ↔ ∃ ret name params, f.ReturnText a ret ∧
      a.Spells (signatureName a f style) name ∧ f.ParamText a params ∧
      text = String.join (f.wordsAt style inClassSpecifiers f.specifiers) ++ ret ++ name ++ "(" ++ params ++ ")" ++
        " ".intercalate (f.wordsAt style inClassTrailers f.trailers) := by
  simp only [signature, Arena.spellsAppend, spellsSpecifiers, spellsReturn, spellsParams, spellsTrailers]
  constructor
  · rintro ⟨_, _, ⟨_, _, ⟨_, name, ⟨_, ret, rfl, isRet, rfl⟩, isName, rfl⟩, ⟨params, isParams, rfl⟩, rfl⟩, rfl, rfl⟩
    exact ⟨ret, name, params, isRet, isName, isParams, by simp [String.append_assoc]⟩
  · rintro ⟨ret, name, params, isRet, isName, isParams, rfl⟩
    exact ⟨_, _, ⟨_, _, ⟨_, name, ⟨_, ret, rfl, isRet, rfl⟩, isName, rfl⟩, ⟨params, isParams, rfl⟩, rfl⟩, rfl,
      by simp [String.append_assoc]⟩

theorem FuncDecl.ReturnText.unique {first second : String} (one : f.ReturnText a first)
    (other : f.ReturnText a second) : first = second :=
  (spellsReturn.mpr one).unique (spellsReturn.mpr other)

theorem FuncDecl.ParamText.unique {first second : String} (one : f.ParamText a first)
    (other : f.ParamText a second) : first = second := by
  have same := (spellsParams.mpr ⟨_, one, rfl⟩).unique (spellsParams.mpr ⟨_, other, rfl⟩)
  simpa [String.append_left_inj, String.append_right_inj] using same

theorem spellsForwardName : a.Spells (signatureName a f .forward) text ↔ text = f.name.last :=
  Arena.spellsOfText

def FuncDecl.QualifiedName (f : FuncDecl) (a : Arena) (text : String) : Prop :=
  ∃ m parent, f.method = some m ∧ a.tagName m.parent = .ok parent ∧ text = parent.text ++ "::" ++ f.name.last

theorem spellsDefinedName :
    a.Spells (signatureName a f .define) text ↔
      (f.method = none ∧ text = f.name.text) ∨ f.QualifiedName a text := by
  cases linked : f.method with
  | none => simp [signatureName, linked, Arena.spellsOfText, FuncDecl.QualifiedName]
  | some m =>
    cases named : a.tagName m.parent with
    | ok parent =>
      simp [signatureName, linked, named, ofName, Arena.spellsAppend, Arena.spellsOfText, Arena.spellsCode,
        Arena.spellsNil, FuncDecl.QualifiedName, String.append_assoc]
    | error cause =>
      simp only [signatureName, linked, named, ofName, FuncDecl.QualifiedName]
      constructor
      · nofun
      · rintro (⟨⟨⟩, _⟩ | ⟨_, _, ⟨⟩, found, _⟩)
        rw [named] at found
        contradiction

theorem spellsHalf {d : DeclRef} (isFunction : a.functionAt d = .ok f) :
    a.Spells (Render.decl a (.splitForward d)) text ↔ ∃ ret params, f.ReturnText a ret ∧ f.ParamText a params ∧
      text = String.join f.specifiers ++ ret ++ f.name.last ++ "(" ++ params ++ ")" ++
        " ".intercalate f.trailers ++ ";" := by
  have kept (inClass words : List String) : f.wordsAt .forward inClass words = words := by
    simp [FuncDecl.wordsAt, beq_eq_decide]
  simp only [Render.decl, isFunction, bind, Except.bind, pure, Except.pure, Pieces.ofExcept, Arena.spellsAppend,
    spellsSignature, spellsForwardName, Arena.spellsOfText, kept]
  constructor
  · rintro ⟨_, _, ⟨ret, _, params, isRet, rfl, isParams, rfl⟩, rfl, rfl⟩
    exact ⟨ret, params, isRet, isParams, rfl⟩
  · rintro ⟨ret, params, isRet, isParams, rfl⟩
    exact ⟨_, _, ⟨ret, _, params, isRet, rfl, isParams, rfl⟩, rfl, rfl⟩

theorem spellsDefinition {scope : ScopeRef} (split : f.lifecycle = .split) (unmarked : f.special = none)
    (filled : f.body = some scope) :
    a.Spells (Render.decl a (.function f)) text ↔ ∃ ret name params inits body, f.ReturnText a ret ∧
      a.Spells (signatureName a f .define) name ∧ f.ParamText a params ∧ f.InitText a inits ∧ f.BodyText a body ∧
      text = String.join (f.wordsAt .define inClassSpecifiers f.specifiers) ++ ret ++ name ++ "(" ++ params ++ ")" ++
        " ".intercalate (f.wordsAt .define inClassTrailers f.trailers) ++ inits ++ "\x7b" ++ body ++ "\x7d" := by
  simp only [Render.decl, Render.function, split, styleOf, functionEnd, unmarked, filled, Arena.spellsAppend,
    spellsSignature, spellsMemberInits, spellsBlock filled]
  constructor
  · rintro ⟨_, _, ⟨ret, name, params, isRet, isName, isParams, rfl⟩, ⟨inits, _, isInits, ⟨body, isBody, rfl⟩, rfl⟩,
      rfl⟩
    exact ⟨ret, name, params, inits, body, isRet, isName, isParams, isInits, isBody, by simp [String.append_assoc]⟩
  · rintro ⟨ret, name, params, inits, body, isRet, isName, isParams, isInits, isBody, rfl⟩
    exact ⟨_, _, ⟨ret, name, params, isRet, isName, isParams, rfl⟩, ⟨inits, _, isInits, ⟨body, isBody, rfl⟩, rfl⟩,
      by simp [String.append_assoc]⟩

end Spelling

/-- The declaration and the definition of a split function, both without comments of their own. -/
theorem splitHalvesAgree {p : Policy} {w : World} (reachable : w.Reachable p) {n : Nat} {a : Arena}
    (here : w.session.arenas[n]? = some a) {f half : DeclRef} {data : FuncDecl}
    (isFunction : a.node f = .ok (.function data)) (split : data.lifecycle = .split)
    (isHalf : a.node half = .ok (.splitForward f)) {table : List (NodeRef × Comments)}
    (bareFunction : table.lookup f.ref = none) (bareHalf : table.lookup half.ref = none) {F D : String}
    (declared : (a.withComments table).render half.ref = .ok F)
    (defined : (a.withComments table).render f.ref = .ok D) :
    ∃ specifiers trailers ret name params inits body,
      data.ReturnText (a.withComments table) ret ∧ data.ParamText (a.withComments table) params ∧
      data.InitText (a.withComments table) inits ∧ data.BodyText (a.withComments table) body ∧
      F = String.join data.specifiers ++ ret ++ data.name.last ++ "(" ++ params ++ ")" ++
        " ".intercalate data.trailers ++ ";" ∧
      D = String.join specifiers ++ ret ++ name ++ "(" ++ params ++ ")" ++ " ".intercalate trailers ++
        inits ++ "\x7b" ++ body ++ "\x7d" ∧
      (data.kind = .free → specifiers = data.specifiers ∧ data.trailers = [] ∧ trailers = [] ∧
        name = data.name.text ∧
        (data.name.segments.length = 1 → ∃ stem rest, F = stem ++ ";" ∧ D = stem ++ rest)) ∧
      (data.kind ≠ .free → specifiers = data.specifiers.filter (· ∉ inClassSpecifiers) ∧
        trailers = data.trailers.filter (· ∉ inClassTrailers) ∧ data.QualifiedName a name) := by
  have found : a.decls[f.index]? = some (.function data) := (Arena.nodeIff.mp isFunction).2
  have lawful := reachable.lawful here found
  obtain ⟨scope, filled⟩ := Option.isSome_iff_exists.mp (lawful.split split)
  have there : (a.withComments table).functionAt f = .ok data := by
    simp [Arena.functionAt, isFunction, bind, Except.bind, pure, Except.pure]
  have first := Arena.spellsDecl (a := a.withComments table) (by simpa using isHalf) bareHalf declared
  have second := Arena.spellsDecl (a := a.withComments table) (by simpa using isFunction) bareFunction defined
  obtain ⟨ret, params, isRet, isParams, rfl⟩ := (spellsHalf there).mp first
  obtain ⟨sameRet, name, sameParams, inits, body, again, isName, againParams, isInits, isBody, rfl⟩ :=
    (spellsDefinition split (lawful.unmarked split) filled).mp second
  cases isRet.unique again
  cases isParams.unique againParams
  refine ⟨_, _, ret, name, params, inits, body, isRet, isParams, isInits, isBody, rfl, rfl, fun free => ?_,
    fun member => ?_⟩
  · have unlinked : data.method = none := by simpa [free] using lawful.member
    have bare : data.trailers = [] := by
      simp [FuncDecl.trailers, FuncDecl.trailerFlags, methodQualifiers, unlinked, MethodQualifiers.none, wordsOf]
    have kept (inClass words : List String) : data.wordsAt .define inClass words = words := by
      simp [FuncDecl.wordsAt, unlinked]
    have named : name = data.name.text := by
      simpa [FuncDecl.QualifiedName, unlinked] using spellsDefinedName.mp isName
    refine ⟨kept _ _, bare, by rw [kept, bare], named, fun single => ?_⟩
    obtain ⟨segment, alone⟩ := List.length_eq_one_iff.mp single
    have last : data.name.last = data.name.text := by simp [QualName.last, QualName.text, alone]
    rw [named, last, kept, kept, bare]
    exact ⟨_, inits ++ "\x7b" ++ body ++ "\x7d", rfl, by simp only [String.append_assoc]⟩
  · have linked : data.method.isSome := lawful.member.mpr member
    have cut (inClass words : List String) : data.wordsAt .define inClass words = words.filter (· ∉ inClass) := by
      simp [FuncDecl.wordsAt, linked]
    have named : data.QualifiedName a name := by
      rcases spellsDefinedName.mp isName with ⟨unlinked, _⟩ | named
      · simp [unlinked] at linked
      · simpa [FuncDecl.QualifiedName] using named
    exact ⟨cut _ _, cut _ _, named⟩

/-- A split method that became virtual and constant after its first half was placed. -/
def World.splitMethod : World :=
  (((((empty.grow .cxx).act 0 (.type (.newAggregate .structKind (.ofString "S")))).act 0
    (.type (.members ⟨⟨0, 1⟩, ⟨0, 0⟩⟩))).act 0 (.type (.raw "int"))).act 0
    (.putMember ⟨.member, ⟨0, 0⟩⟩ rfl (.method .split "m" ⟨0, 2⟩ [] true))).act 0
    (.decl (.setMethodQualifiers ⟨⟨0, 1⟩⟩ ⟨true, false, true, true, false, none⟩))

theorem World.splitMethodReachable : splitMethod.Reachable .strict := by
  refine .act (.act (.act (.act (.act (Reachable.start.grow .cxx) ?_) ?_) ?_) ?_) ?_
  all_goals exact allowsHeld (by decide) rfl (by decide)

theorem splitMethodAgrees :
    ∃ a data ret name params, World.splitMethod.session.arenas[0]? = some a ∧
      a.node (⟨0, 1⟩ : DeclRef) = .ok (.function data) ∧ a.comments = [] ∧
      a.render (⟨0, 2⟩ : DeclRef).ref = .ok "virtual int m(...)const override;" ∧
      a.render (⟨0, 1⟩ : DeclRef).ref = .ok "int S::m(...)const\x7b\x7d" ∧
      data.ReturnText a ret ∧ data.ParamText a params ∧ data.QualifiedName a name := by
  obtain ⟨a, here⟩ : ∃ a, World.splitMethod.session.arenas[0]? = some a := ⟨_, rfl⟩
  obtain ⟨data, found, split, member, half, bare, declared, defined⟩ :
      ∃ data, a.node (⟨0, 1⟩ : DeclRef) = .ok (.function data) ∧ data.lifecycle = .split ∧ data.kind ≠ .free ∧
        a.node (⟨0, 2⟩ : DeclRef) = .ok (.splitForward ⟨0, 1⟩) ∧ a.comments = [] ∧
        a.render (⟨0, 2⟩ : DeclRef).ref = .ok "virtual int m(...)const override;" ∧
        a.render (⟨0, 1⟩ : DeclRef).ref = .ok "int S::m(...)const\x7b\x7d" := by
    cases here
    exact ⟨_, rfl, rfl, by decide, rfl, rfl, rfl, rfl⟩
  have same : a.withComments [] = a := by simp [Arena.withComments, ← bare]
  obtain ⟨_, _, ret, name, params, _, _, isRet, isParams, _, _, _, _, _, asMember⟩ :=
    splitHalvesAgree World.splitMethodReachable here found split half rfl rfl (same.symm ▸ declared)
      (same.symm ▸ defined)
  rw [same] at isRet isParams
  exact ⟨a, data, ret, name, params, here, found, bare, declared, defined, isRet, isParams, (asMember member).2.2⟩

end CSource
