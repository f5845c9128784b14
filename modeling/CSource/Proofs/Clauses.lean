import CSource.Proofs.Balance

/-!
Clauses. The semicolons outside of all brackets divide a text into clauses, and a text without one stands whole in its
clause. A type, an expression or a variable has such a text: what could divide it, the bodies of lambdas and the members
of types, is enclosed in brackets of its own.
-/

namespace CSource

open Pieces Render

/-- The brackets that are still to be closed behind the character, which must not be a semicolon outside of all. -/
def sealedBehind (owed : List Char) (c : Char) : Option (List Char) :=
  if owed = [] ∧ c = ';' then none else owedBehind owed c

def sealedAfter (owed cs : List Char) : Option (List Char) := cs.foldlM sealedBehind owed

def Undivided (text : String) : Prop := sealedAfter [] text.toList = some []

instance (text : String) : Decidable (Undivided text) := inferInstanceAs (Decidable (_ = _))

/-- The semicolons of the text stand in brackets, whatever is open before it. -/
def Seamless (text : String) : Prop := ∀ owed, sealedAfter owed text.toList = owedAfter owed text.toList

/-- The first of the stretches between the semicolons that stand outside of all brackets, and the other ones. -/
def clausesFrom (owed : List Char) : List Char → List Char × List (List Char)
  | [] => ([], [])
  | c :: cs =>
    let (first, others) := clausesFrom ((owedBehind owed c).getD []) cs
    if owed = [] ∧ c = ';' then ([], first :: others) else (c :: first, others)

def clausesOf (text : String) : List String :=
  let (first, others) := clausesFrom [] text.toList
  String.ofList first :: others.map String.ofList

section Texts

variable {c d : Char} {cs ds owed left base : List Char} {s t : String}

theorem sealedCons : sealedAfter owed (c :: cs) = (sealedBehind owed c).bind (sealedAfter · cs) := List.foldlM_cons

theorem sealedAppend : sealedAfter owed (cs ++ ds) = (sealedAfter owed cs).bind (sealedAfter · ds) :=
  List.foldlM_append

theorem sealedOwed (behind : sealedBehind owed c = some left) : owedBehind owed c = some left := by
  unfold sealedBehind at behind
  split_ifs at behind
  exact behind

theorem owedOfSealed (after : sealedAfter owed cs = some left) : owedAfter owed cs = some left := by
  induction cs generalizing owed with
  | nil => exact after
  | cons c cs ih =>
    obtain ⟨mid, first, rest⟩ := Option.bind_eq_some_iff.mp (sealedCons ▸ after)
    rw [owedCons, sealedOwed first]
    exact ih rest

theorem Undivided.balanced (undivided : Undivided s) : Balanced s := owedOfSealed undivided

theorem sealedInside (after : owedAfter owed cs = some left) (inside : base ≠ []) :
    sealedAfter (owed ++ base) cs = some (left ++ base) := by
  induction cs generalizing owed with
  | nil =>
    cases after
    rfl
  | cons c cs ih =>
    obtain ⟨mid, first, rest⟩ := Option.bind_eq_some_iff.mp (owedCons ▸ after)
    have allowed : sealedBehind (owed ++ base) c = some (mid ++ base) := by
      rw [sealedBehind, if_neg (by simp [inside])]
      exact owedFramed first
    rw [sealedCons, allowed]
    exact ih rest

theorem Undivided.seamless (undivided : Undivided s) : Seamless s := by
  intro owed
  rw [balancedIff.mp undivided.balanced owed]
  cases owed with
  | nil => exact undivided
  | cons d owed => exact sealedInside undivided.balanced (List.cons_ne_nil d owed)

theorem seamlessPlain (plain : ';' ∉ s.toList) : Seamless s := by
  intro owed
  generalize s.toList = cs at plain
  induction cs generalizing owed with
  | nil => rfl
  | cons c cs ih =>
    rw [List.mem_cons, not_or] at plain
    have same : sealedBehind owed c = owedBehind owed c := if_neg fun both => plain.1 both.2.symm
    rw [sealedCons, owedCons, same]
    exact congrArg _ (funext fun left => ih left plain.2)

theorem Seamless.append (first : Seamless s) (second : Seamless t) : Seamless (s ++ t) := by
  intro owed
  rw [String.toList_append, sealedAppend, owedAppend, first owed]
  exact congrArg _ (funext fun left => second left)

theorem Seamless.joined {separator : String} {texts : List String} (plain : Seamless separator)
    (each : ∀ t ∈ texts, Seamless t) : Seamless (separator.intercalate texts) := by
  induction texts with
  | nil => exact fun _ => rfl
  | cons t texts ih =>
    obtain ⟨first, others⟩ := List.forall_mem_cons.mp each
    cases texts with
    | nil => simpa using first
    | cons u texts =>
      rw [String.intercalate_cons_cons]
      exact (first.append plain).append (ih others)

theorem Seamless.named {name : QualName} (each : ∀ segment ∈ name.segments, Seamless segment) :
    Seamless name.text :=
  .joined (seamlessPlain (by decide)) each

theorem Seamless.undivided (seamless : Seamless s) (balanced : Balanced s) : Undivided s :=
  (seamless []).trans balanced

theorem Undivided.append (first : Undivided s) (second : Undivided t) : Undivided (s ++ t) :=
  (first.seamless.append second.seamless).undivided (first.balanced.append second.balanced)

theorem Balanced.enclosed {before behind : String} (balanced : Balanced s) (opens : before.toList = [c])
    (closes : behind.toList = [d]) (pair : closerOf c = some d) : Undivided (before ++ s ++ behind) := by
  have plain : c ≠ ';' ∧ d ≠ ';' := by
    unfold closerOf at pair
    split at pair <;> cases pair <;> decide
  have first : sealedBehind [] c = some [d] := by
    rw [sealedBehind, if_neg fun both => plain.1 both.2]
    simp [owedBehind, pair]
  have last : sealedBehind [d] d = some [] := by
    rw [sealedBehind, if_neg fun both => plain.2 both.2]
    unfold closerOf at pair
    split at pair <;> cases pair <;> rfl
  have middle : sealedAfter [d] s.toList = some [d] := sealedInside balanced (List.cons_ne_nil d [])
  unfold Undivided
  rw [String.toList_append, String.toList_append, opens, closes, List.append_assoc, List.singleton_append, sealedCons,
    first, Option.bind_some, sealedAppend, middle, Option.bind_some, sealedCons, last]
  rfl

theorem clausesBehind (after : sealedAfter owed cs = some left) :
    clausesFrom owed (cs ++ ds) = (cs ++ (clausesFrom left ds).1, (clausesFrom left ds).2) := by
  induction cs generalizing owed with
  | nil =>
    cases after
    rfl
  | cons c cs ih =>
    obtain ⟨mid, first, rest⟩ := Option.bind_eq_some_iff.mp (sealedCons ▸ after)
    have whole : ¬(owed = [] ∧ c = ';') := by
      intro divides
      rw [sealedBehind, if_pos divides] at first
      contradiction
    rw [List.cons_append, clausesFrom, sealedOwed first, Option.getD_some, ih rest]
    exact if_neg whole

theorem Undivided.clauses (undivided : Undivided s) : clausesOf s = [s] := by
  have whole : clausesFrom [] (s.toList ++ []) = (s.toList ++ [], []) := clausesBehind undivided
  rw [List.append_nil] at whole
  simp [clausesOf, whole]

theorem Undivided.clausesBefore (undivided : Undivided s) : clausesOf (s ++ ";" ++ t) = s :: clausesOf t := by
  have chars : (s ++ ";" ++ t).toList = s.toList ++ ';' :: t.toList := by simp
  have next : clausesFrom [] (';' :: t.toList) =
      ([], (clausesFrom [] t.toList).1 :: (clausesFrom [] t.toList).2) := rfl
  rw [clausesOf, chars, clausesBehind undivided, next]
  simp [clausesOf]

theorem Undivided.commented {a : Arena} {r : NodeRef} (undivided : Undivided s)
    (remarks : ∀ t ∈ a.remarks r, Undivided t) : Undivided (a.commented r s) := by
  have block (comment : Option String) (told : ∀ t ∈ comment.toList, Undivided t) : Undivided (commentText comment) := by
    cases comment with
    | none => decide
    | some t => exact .append (.append (s := "/* ") (by decide) (told t (List.mem_singleton_self t))) (by decide)
  unfold Arena.commented
  unfold Arena.remarks at remarks
  cases found : a.commentsOf r with
  | none => exact undivided
  | some c =>
    simp only [found] at remarks
    obtain ⟨before, after⟩ := List.forall_mem_append.mp remarks
    exact ((block _ before).append undivided).append (block _ after)

end Texts

def Piece.Flat : Piece → Prop
  | .code text => Seamless text
  | .child r => r.category = .type ∨ r.category = .expr
  | .fault _ => True

def Pieces.Flat (ps : Pieces) : Prop := ∀ x ∈ ps, x.Flat

namespace Pieces

variable {ps qs : Pieces} {text : String} {c : Category}

@[simp] theorem flatNil : Flat [] := List.forall_mem_nil _

@[simp] theorem flatCode : Flat (.code text :: ps) ↔ Seamless text ∧ Flat ps := List.forall_mem_cons

@[simp] theorem flatChild {h : Handle c} : Flat (.child h.ref :: ps) ↔ (c = .type ∨ c = .expr) ∧ Flat ps :=
  List.forall_mem_cons

@[simp] theorem flatAppend : Flat (ps ++ qs) ↔ Flat ps ∧ Flat qs := List.forall_mem_append

@[simp] theorem flatOfText : Flat (ofText text) ↔ Seamless text := by simp [ofText]

@[simp] theorem flatOfHandle {h : Handle c} : Flat (ofHandle h) ↔ c = .type ∨ c = .expr := by simp [ofHandle]

theorem flatOfName {name : Except Misuse QualName} (each : ∀ s ∈ segmentsOf name, Seamless s) : Flat (ofName name) := by
  cases name with
  | error cause => exact List.forall_mem_singleton.mpr trivial
  | ok n => exact flatOfText.mpr (.named each)

@[simp] theorem flatInParens : Flat (inParens ps) ↔ Flat ps := by
  simp [inParens, seamlessPlain]

@[simp] theorem flatInBrackets : Flat (inBrackets ps) ↔ Flat ps := by
  simp [inBrackets, seamlessPlain]

@[simp] theorem flatInBraces : Flat (inBraces ps) ↔ Flat ps := by
  simp [inBraces, seamlessPlain]

theorem flatFlatMap {α : Type} {f : α → Pieces} {xs : List α} (each : ∀ x ∈ xs, Flat (f x)) : Flat (xs.flatMap f) := by
  intro piece mem
  obtain ⟨x, listed, inside⟩ := List.mem_flatMap.mp mem
  exact each x listed piece inside

theorem flatMapped {α : Type} {f : α → Pieces} {xs : List α} {separator : String} (plain : Seamless separator)
    (each : ∀ x ∈ xs, Flat (f x)) : Flat (separated separator (xs.map f)) := by
  induction xs with
  | nil => exact flatNil
  | cons x xs ih =>
    obtain ⟨first, others⟩ := List.forall_mem_cons.mp each
    cases xs with
    | nil => exact first
    | cons next rest => exact flatAppend.mpr ⟨first, flatCode.mpr ⟨plain, ih others⟩⟩

theorem flatCommaHandles {hs : List (Handle c)} (inline : c = .type ∨ c = .expr) : Flat (commaHandles hs) :=
  flatMapped (seamlessPlain (by decide)) fun _ _ => flatOfHandle.mpr inline

theorem flatOption {α : Type} {f : α → Pieces} {x : Option α} (each : ∀ y, Flat (f y)) : Flat (ofOption f x) := by
  cases x with
  | none => exact flatNil
  | some y => exact each y

theorem flatFlagged {flags : List (Bool × String)} (each : ∀ flag ∈ flags, Seamless flag.2) : Flat (flagged flags) := by
  intro piece mem
  obtain ⟨flag, raised, rfl⟩ := List.mem_map.mp mem
  exact each flag (List.mem_filter.mp raised).1

theorem flatParams {hs : List (Handle c)} {variadic : Bool} (inline : c = .type ∨ c = .expr) :
    Flat (params hs variadic) := by
  have mark : Flat (variadicMark (!hs.isEmpty) variadic) := by
    unfold variadicMark
    split_ifs <;> simp [seamlessPlain]
  simp [params, flatCommaHandles inline, mark]

end Pieces

theorem Arena.Spells.seamless {a : Arena} {ps : Pieces} {text : String} (spelled : a.Spells ps text) (flat : ps.Flat)
    (inner : ∀ k, .child k ∈ ps → ∀ t, a.render k = .ok t → Undivided t) : Seamless text := by
  induction spelled with
  | nil => exact seamlessPlain (by decide)
  | code s spelled ih =>
    obtain ⟨first, others⟩ := List.forall_mem_cons.mp flat
    exact first.append (ih others fun k mem => inner k (List.mem_cons_of_mem _ mem))
  | child written spelled ih =>
    obtain ⟨_, others⟩ := List.forall_mem_cons.mp flat
    exact (inner _ (List.mem_cons_self ..) _ written).seamless.append
      (ih others fun k mem => inner k (List.mem_cons_of_mem _ mem))

section Nodes

variable {a : Arena}

theorem flatArraySizes (sizes : List ExprRef) : Flat (arraySizes sizes) := by
  cases sizes with
  | nil => exact flatOfText.mpr (seamlessPlain (by decide))
  | cons size sizes => exact flatFlatMap fun size _ => by simp

theorem flatEnclosed (braced : Bool) (args : List ExprRef) : Flat (enclosed braced args) := by
  cases braced <;> simp [enclosed, flatCommaHandles]

theorem flatInstantiation {d : DeclRef} (args : List TemplateArg)
    (each : ∀ s ∈ segmentsOf (a.declName d), Seamless s) : Flat (instantiation a d args) := by
  have inside : Flat (templateArgs args) := flatMapped (seamlessPlain (by decide)) fun arg _ => by
    cases arg <;> simp [TemplateArg.ref]
  simp [instantiation, flatOfName each, inside, seamlessPlain]

theorem flatTagged {keyword : String} {name : Except Misuse QualName} (plain : Seamless keyword)
    (each : ∀ s ∈ segmentsOf name, Seamless s) : Flat (taggedName keyword name) := by
  simp [taggedName, plain, flatOfName each, seamlessPlain]

theorem kindSeamless (kind : AggregateKind) : Seamless kind.keyword := by
  cases kind <;> exact seamlessPlain (by decide)

theorem accessSeamless (access : Access) : Seamless access.keyword := by
  cases access <;> exact seamlessPlain (by decide)

theorem flatNamedType {d : DeclRef} (each : ∀ s ∈ segmentsOf (a.declName d), Seamless s) : Flat (namedType a d) := by
  unfold namedType
  cases found : a.node d with
  | error cause => exact List.forall_mem_singleton.mpr trivial
  | ok n =>
    cases n with
    | aggregate ty forward =>
      have named := tagNamed (.inl found)
      cases tag : a.aggregateAt ty with
      | error cause =>
        simp only [tag, bind, Except.bind, Pieces.ofExcept]
        exact List.forall_mem_singleton.mpr trivial
      | ok data =>
        simp only [tag, bind, Except.bind, pure, Except.pure, Pieces.ofExcept]
        split_ifs
        · exact flatOfName each
        · exact flatTagged (kindSeamless _) (named ▸ each)
    | enumeration ty forward =>
      have named := tagNamed (.inr found)
      simp only [bind, Except.bind, pure, Except.pure, Pieces.ofExcept]
      split_ifs
      · exact flatOfName each
      · exact flatTagged (seamlessPlain (by decide)) (named ▸ each)
    | _ => exact flatOfName each

theorem flatEnumeration {data : Enumeration} (name : ∀ s ∈ data.name.segments, Seamless s)
    (members : ∀ s ∈ data.members.map (·.name), Seamless s) : Flat (Render.enumeration data) := by
  have key : Flat (ofOption (fun key : EnumKey => [.code key.keyword, .code " "]) data.key) :=
    flatOption fun key => by cases key <;> simp [EnumKey.keyword, seamlessPlain]
  have underlying : Flat (ofOption (fun ty : TypeRef => .code ":" :: ofHandle ty) data.underlying) :=
    flatOption fun ty => by simp [seamlessPlain]
  have inside : Flat (data.members.flatMap enumMember) := flatFlatMap fun m mem => by
    have own : Seamless m.name := members _ (List.mem_map_of_mem mem)
    have value : Flat (ofOption (fun value : ExprRef => .code "=" :: ofHandle value) m.value) :=
      flatOption fun e => by simp [seamlessPlain]
    simp [enumMember, own, value, seamlessPlain]
  simp [Render.enumeration, enumHead, key, underlying, inside, Seamless.named name, seamlessPlain]

theorem flatNameSuffix {name : String} (seamless : Seamless name) : Flat (nameSuffix name) := by
  unfold nameSuffix
  split_ifs <;> simp [seamless, seamlessPlain]

theorem flatDeclarator {name : String} (ty : TypeRef) (seamless : Seamless name) : Flat (declarator a ty name) := by
  have suffix := flatNameSuffix seamless
  have inline : Category.type = .type ∨ Category.type = .expr := .inl rfl
  unfold declarator
  cases a.node ty with
  | error cause => exact List.forall_mem_singleton.mpr trivial
  | ok n =>
    cases n with
    | pointer pointee =>
      cases found : a.node pointee with
      | error cause =>
        simp only [found, bind, Except.bind, Pieces.ofExcept]
        exact List.forall_mem_singleton.mpr trivial
      | ok m =>
        cases m <;> simp [found, bind, Except.bind, pure, Except.pure, Pieces.ofExcept, plainDeclarator, suffix,
          seamless, flatParams inline, seamlessPlain]
    | _ => simp [bind, Except.bind, pure, Except.pure, Pieces.ofExcept, plainDeclarator, suffix, flatParams inline,
        flatArraySizes]

theorem varFlat {data : VarDecl} (each : ∀ s ∈ data.leaves, Seamless s) : Flat (Render.var a data) := by
  have name : Seamless (declaredName data) := by
    unfold declaredName
    split_ifs with blank restricted
    · exact seamlessPlain (by decide)
    · exact .append (seamlessPlain (by decide)) (.named (by simpa [VarDecl.leaves, blank] using each))
    · exact .named (by simpa [VarDecl.leaves, blank] using each)
  have shape : Flat (varShape data.shape) := by
    cases data.shape <;> simp [varShape, flatArraySizes, flatEnclosed]
  have initial : Flat (initializer data.init) := flatOption fun e => by simp [seamlessPlain]
  have quals : Flat (flagged [(data.quals.isConst, "const "), (data.quals.isExternal, "extern "),
      (data.quals.isStatic, "static "), (data.quals.isVolatile, "volatile "), (data.quals.isInline, "inline ")]) :=
    flatFlagged (by simp [seamlessPlain])
  simp [Render.var, quals, flatDeclarator _ name, shape, initial]

theorem typeFlat {n : TypeNode} (each : ∀ s ∈ n.leaves a, Seamless s) (closed : ∀ data, n ≠ .aggregate data) :
    Flat (type a n) := by
  cases n with
  | raw spelling => exact flatOfText.mpr (List.forall_mem_singleton.mp each)
  | aggregate data => exact absurd rfl (closed data)
  | enumeration data =>
    obtain ⟨name, members⟩ := List.forall_mem_append.mp each
    exact flatEnumeration name members
  | named d => exact flatNamedType each
  | instantiation d args => exact flatInstantiation args each
  | synonym name aliased => exact flatOfText.mpr (.named each)
  | parameter keyword => cases keyword <;> simp [type, ParameterKeyword.keyword, seamlessPlain]
  | _ => simp [type, seamlessPlain, flatArraySizes, flatParams]

theorem exprFlat {n : ExprNode} (each : ∀ s ∈ n.leaves a, Seamless s) (closed : ∀ data, n ≠ .lambda data) :
    Flat (expr a n) := by
  cases n with
  | raw text => exact flatOfText.mpr (List.forall_mem_singleton.mp each)
  | qualName name => exact flatOfText.mpr (.named each)
  | var d => exact flatOfName each
  | unary op x leading =>
    have own := List.forall_mem_singleton.mp each
    cases leading <;> simp [expr, own]
  | binary op lhs rhs =>
    have own := List.forall_mem_singleton.mp each
    simp [expr, own]
  | userLiteral x suffix =>
    have own := List.forall_mem_singleton.mp each
    simp [expr, own, seamlessPlain]
  | designated fields =>
    refine flatInBraces.mpr (flatMapped (seamlessPlain (by decide)) fun d mem => ?_)
    have own : Seamless d.field := each _ (List.mem_map_of_mem mem)
    simp [designator, own, seamlessPlain]
  | generic control assocs =>
    have inside : Flat (assocs.flatMap association) := flatFlatMap fun assoc _ => by
      cases ty : assoc.ty <;> simp [association, ty, seamlessPlain]
    simp [expr, inside, seamlessPlain]
  | lambda data => exact absurd rfl (closed data)
  | new data =>
    have placement : Flat (ofOption (fun e : ExprRef => inParens (ofHandle e)) data.placement) :=
      flatOption fun e => by simp
    have size : Flat (ofOption (fun e : ExprRef => inBrackets (ofHandle e)) data.arraySize) :=
      flatOption fun e => by simp
    simp [expr, Render.new, placement, size, flatEnclosed, seamlessPlain]
  | delete x array => cases array <;> simp [expr, seamlessPlain]
  | instantiation d args => exact flatInstantiation args each
  | fold op pack kind =>
    have own := List.forall_mem_singleton.mp each
    cases kind <;> simp [expr, Render.fold, own, seamlessPlain]
  | _ => simp [expr, flatEnclosed, seamlessPlain]

end Nodes

inductive Pieces.Whole : Pieces → Prop where
  | flat {ps : Pieces} (flat : ps.Flat) (level : ps.Level) : Whole ps
  | parens {ps : Pieces} (level : ps.Level) : Whole (inParens ps)
  | braces {ps : Pieces} (level : ps.Level) : Whole (inBraces ps)
  | append {ps qs : Pieces} (first : Whole ps) (second : Whole qs) : Whole (ps ++ qs)

section Whole

variable {a : Arena}

theorem wholeAggregate {data : Aggregate} (each : ∀ s ∈ data.name.segments, Undivided s) : Whole (aggregate data) := by
  have name : Flat (aggregateHead data) := flatTagged (kindSeamless _) fun s mem => (each s mem).seamless
  have levelName := levelAggregateHead fun s mem => (each s mem).balanced
  have final : Flat (flagged [(data.isFinal, " final")]) := flatFlagged (by simp [seamlessPlain])
  have bases : Flat (baseList data.bases) := by
    cases data.bases with
    | nil => exact flatNil
    | cons base bases =>
      exact flatCode.mpr ⟨seamlessPlain (by decide), flatMapped (seamlessPlain (by decide)) fun b _ => by
        simp [accessSeamless, seamlessPlain]⟩
  refine .append (.flat ?_ ?_) (.braces (levelRegions _))
  · simp [name, final, bases]
  · simp +decide [levelName, levelBaseList]

theorem wholeLambda {data : LambdaExpr} (each : ∀ s ∈ data.captures.flatMap (·.leaves), Undivided s) :
    Whole (Render.lambda data) := by
  have captures : Flat (separated "," (data.captures.map (ofText ·.text))) := by
    refine flatMapped (seamlessPlain (by decide)) fun capture mem => flatOfText.mpr ?_
    have named : ∀ s ∈ capture.leaves, Undivided s :=
      fun s inside => each s (List.mem_flatMap.mpr ⟨capture, mem, inside⟩)
    cases capture with
    | byValue name => exact (List.forall_mem_singleton.mp named).seamless
    | byReference name => exact .append (seamlessPlain (by decide)) (List.forall_mem_singleton.mp named).seamless
    | _ => exact seamlessPlain (by decide)
  have level := levelCaptures fun s mem => (each s mem).balanced
  have params : Level (commaHandles data.params ++ variadicMark (!data.params.isEmpty) data.variadic) :=
    (levelAppend (levelCommaHandles _)).mpr (levelVariadicMark _ _)
  have ret : Flat (ofOption (fun ret : TypeRef => .code "->" :: ofHandle ret) data.ret) :=
    flatOption fun _ => by simp [seamlessPlain]
  have levelRet : Level (ofOption (fun ret : TypeRef => .code "->" :: ofHandle ret) data.ret) :=
    levelOption fun _ _ => by simp +decide
  have front : Whole (inBrackets (separated "," (data.captures.map (ofText ·.text)))) :=
    .flat (flatInBrackets.mpr captures) (levelInBrackets level)
  exact .append (.append (.append front (.parens params)) (.flat ret levelRet)) (.braces (levelOfHandle _))

theorem typeWhole {n : TypeNode} (each : ∀ s ∈ n.leaves a, Undivided s) : Whole (type a n) := by
  by_cases isAggregate : ∃ data, n = .aggregate data
  · obtain ⟨data, rfl⟩ := isAggregate
    exact wholeAggregate each
  · exact .flat (typeFlat (fun s mem => (each s mem).seamless) (not_exists.mp isAggregate))
      (typeLevel fun s mem => (each s mem).balanced)

theorem exprWhole {n : ExprNode} (each : ∀ s ∈ n.leaves a, Undivided s) : Whole (expr a n) := by
  by_cases isLambda : ∃ data, n = .lambda data
  · obtain ⟨data, rfl⟩ := isLambda
    exact wholeLambda each
  · exact .flat (exprFlat (fun s mem => (each s mem).seamless) (not_exists.mp isLambda))
      (exprLevel fun s mem => (each s mem).balanced)

theorem varWhole {data : VarDecl} (each : ∀ s ∈ data.leaves, Undivided s) : Whole (Render.var a data) :=
  .flat (varFlat fun s mem => (each s mem).seamless) (levelVar fun s mem => (each s mem).balanced)

end Whole

end CSource
