import CSource.Proofs.Writing

/-!
Declarators. A declaration is to be read inside out: the name stands in the middle, and pointers, arrays and
parameter lists are put around it in the order in which the type was made. What is written for a name and a type is
that text, up to blanks, for the types that are at most one step away from a pointer to something plain, and for no
other type.
-/

namespace CSource

inductive CType where
  | base (text : String)
  | pointer (target : CType)
  | array (element : CType) (sizes : List String)
  | function (result : CType) (params : String)
  deriving DecidableEq, Repr

def sizesText : List String → String
  | [] => "[]"
  | sizes => String.join (sizes.map fun size => "[" ++ size ++ "]")

def squeeze (text : String) : List Char := text.toList.filter (· ≠ ' ')

namespace CType

def isSuffixed : CType → Bool
  | array _ _ | function _ _ => true
  | base _ | pointer _ => false

def reference : CType → String → String
  | base text, d => text ++ " " ++ d
  | pointer target, d => target.reference (if target.isSuffixed then "(*" ++ d ++ ")" else "*" ++ d)
  | array element sizes, d => element.reference (d ++ sizesText sizes)
  | function result params, d => result.reference (d ++ "(" ++ params ++ ")")

def text : CType → String
  | base text => text
  | pointer target => target.text ++ "*"
  | array element sizes => element.text ++ sizesText sizes
  | function result params => result.text ++ "(" ++ params ++ ")"

def declared : CType → String → String
  | function result params, name => result.text ++ " " ++ name ++ "(" ++ params ++ ")"
  | pointer (function result params), name => result.text ++ "(*" ++ name ++ ")(" ++ params ++ ")"
  | array element sizes, name => element.text ++ " " ++ name ++ sizesText sizes
  | T, name => T.text ++ " " ++ name

def isSimple : CType → Bool
  | base _ => true
  | pointer target => target.isSimple
  | array _ _ | function _ _ => false

def isDeclarable : CType → Bool
  | function result _ | pointer (function result _) => result.isSimple
  | array element _ => element.isSimple
  | T => T.isSimple

/-- The sizes of an array variable stand behind those of its type, where they should stand before them. -/
def isArrayable (sizes : List String) : CType → Bool
  | array element own =>
    element.isSimple && (squeeze (sizesText own ++ sizesText sizes) == squeeze (sizesText sizes ++ sizesText own))
  | T => T.isSimple

def paramTexts : CType → List String
  | base _ => []
  | pointer target => target.paramTexts
  | array element _ => element.paramTexts
  | function result params => params :: result.paramTexts

end CType

def IsWord (name : String) : Prop := name ≠ "" ∧ ∀ c ∈ name.toList, c.isAlphanum = true ∨ c = '_'

def CType.Lacks (T : CType) (name : String) : Prop := ∀ params ∈ T.paramTexts, ¬squeeze name <:+: squeeze params

section Squeezed

variable {T : CType} {x : String}

@[simp] theorem squeezeAppend (s t : String) : squeeze (s ++ t) = squeeze s ++ squeeze t := by
  simp [squeeze]

@[simp] theorem squeezeBlank : squeeze " " = [] := rfl

@[simp] theorem squeezeStar : squeeze "*" = ['*'] := rfl

@[simp] theorem squeezeParen : squeeze "(" = ['('] := rfl

@[simp] theorem squeezeParenClosed : squeeze ")" = [')'] := rfl

@[simp] theorem squeezeParenStar : squeeze "(*" = ['(', '*'] := rfl

@[simp] theorem squeezeParens : squeeze ")(" = [')', '('] := rfl

theorem sizesOpen (sizes : List String) : ∃ rest, squeeze (sizesText sizes) = '[' :: rest := by
  cases sizes with
  | nil => exact ⟨[']'], rfl⟩
  | cons size sizes =>
    refine ⟨squeeze (size ++ "]" ++ String.join (sizes.map fun size => "[" ++ size ++ "]")), ?_⟩
    simp [sizesText, squeeze]

namespace CType

def stem : CType → List Char
  | base text => squeeze text
  | pointer target => target.stem
  | array element _ => element.stem
  | function result _ => result.stem

def suffix : CType → List Char
  | base _ => []
  | pointer target => target.suffix ++ ['*']
  | array element sizes => element.suffix ++ squeeze (sizesText sizes)
  | function result params => result.suffix ++ '(' :: squeeze params ++ [')']

def before : CType → List Char
  | base _ => []
  | pointer target => target.before ++ if target.isSuffixed then ['(', '*'] else ['*']
  | array element _ => element.before
  | function result _ => result.before

def after : CType → List Char
  | base _ => []
  | pointer target => if target.isSuffixed then ')' :: target.after else target.after
  | array element sizes => squeeze (sizesText sizes) ++ element.after
  | function result params => '(' :: squeeze params ++ ')' :: result.after

/-- The pairs of parentheses that a declaration needs around pointers. -/
def enclosures : CType → Nat
  | base _ => 0
  | pointer target => target.enclosures + if target.isSuffixed then 1 else 0
  | array element _ => element.enclosures
  | function result _ => result.enclosures

theorem squeezeText (T : CType) : squeeze T.text = T.stem ++ T.suffix := by
  induction T with
  | base text => simp [CType.text, stem, suffix]
  | pointer target ih => simp [text, stem, suffix, ih]
  | array element sizes ih => simp [text, stem, suffix, ih]
  | function result params ih => simp [text, stem, suffix, ih]

theorem squeezeReference (T : CType) (d : String) :
    squeeze (T.reference d) = T.stem ++ T.before ++ squeeze d ++ T.after := by
  induction T generalizing d with
  | base text => simp [reference, stem, before, after]
  | pointer target ih =>
    rw [reference, ih]
    cases enclosed : target.isSuffixed <;> simp [stem, before, after, enclosed]
  | array element sizes ih => simp [reference, stem, before, after, ih]
  | function result params ih => simp [reference, stem, before, after, ih]

theorem referenceLength (T : CType) : T.before.length + T.after.length = T.suffix.length + 2 * T.enclosures := by
  induction T with
  | base text => rfl
  | pointer target ih =>
    cases enclosed : target.isSuffixed <;> simp [before, after, suffix, enclosures, enclosed] <;> omega
  | array element sizes ih =>
    simp [before, after, suffix, enclosures]
    omega
  | function result params ih =>
    simp [before, after, suffix, enclosures]
    omega

theorem simpleStars (simple : T.isSimple = true) : T.before = T.suffix ∧ T.after = [] ∧ T.enclosures = 0 := by
  induction T with
  | base text => exact ⟨rfl, rfl, rfl⟩
  | pointer target ih =>
    have plain : target.isSuffixed = false := by
      cases target <;> first | rfl | contradiction
    obtain ⟨first, last, none⟩ := ih simple
    simp [before, after, suffix, enclosures, plain, first, last, none]
  | array element sizes ih => contradiction
  | function result params ih => contradiction

theorem flatPointer (flat : (pointer T).enclosures = 0) : T.isSimple = true := by
  induction T with
  | base text => rfl
  | pointer target ih => exact ih flat
  | array element sizes ih => exact absurd flat (Nat.succ_ne_zero _)
  | function result params ih => exact absurd flat (Nat.succ_ne_zero _)

def Opens (T : CType) (rest : List Char) : Prop :=
  (∃ more, rest = '[' :: more) ∨ ∃ params ∈ T.paramTexts, ∃ more, rest = '(' :: squeeze params ++ ')' :: more

theorem Opens.append {U : CType} {rest : List Char} (opens : T.Opens rest) (more : List Char)
    (known : T.paramTexts ⊆ U.paramTexts) : U.Opens (rest ++ more) := by
  rcases opens with ⟨others, rfl⟩ | ⟨params, listed, others, rfl⟩
  · exact .inl ⟨others ++ more, rfl⟩
  · exact .inr ⟨params, known listed, others ++ more, by simp⟩

/-- A type that needs no parentheses is simple, or an array or a parameter list stands next to its stars. -/
theorem suffixOpens (flat : T.enclosures = 0) :
    T.isSimple = true ∨ ∃ rest, T.suffix = T.before ++ rest ∧ T.Opens rest := by
  induction T with
  | base text => exact .inl rfl
  | pointer target ih => exact .inl (flatPointer flat)
  | array element sizes ih =>
    refine .inr ?_
    rcases ih flat with simple | ⟨rest, split, opens⟩
    · exact ⟨squeeze (sizesText sizes), by simp [suffix, before, (simpleStars simple).1], .inl (sizesOpen sizes)⟩
    · exact ⟨rest ++ squeeze (sizesText sizes), by simp [suffix, before, split], opens.append _ fun _ mem => mem⟩
  | function result params ih =>
    refine .inr ?_
    rcases ih flat with simple | ⟨rest, split, opens⟩
    · refine ⟨'(' :: squeeze params ++ [')'], by simp [suffix, before, (simpleStars simple).1], .inr ?_⟩
      exact ⟨params, List.mem_cons_self .., [], rfl⟩
    · refine ⟨rest ++ ('(' :: squeeze params ++ [')']), by simp [suffix, before, split], ?_⟩
      exact opens.append _ fun _ mem => List.mem_cons_of_mem _ mem

end CType

variable {name : String} {rest : List Char}

theorem squeezeWord (word : IsWord name) : squeeze name = name.toList := by
  refine List.filter_eq_self.mpr fun c mem => ?_
  rcases word.2 c mem with letter | rfl
  · simp only [decide_not, Bool.not_eq_true', decide_eq_false_iff_not]
    rintro rfl
    contradiction
  · rfl

theorem wordBare (word : IsWord name) {c : Char} (mem : c ∈ squeeze name) : c ∉ ['[', '(', ')'] := by
  rw [squeezeWord word] at mem
  intro bracket
  rcases word.2 c mem with letter | rfl
  · simp only [List.mem_cons, List.not_mem_nil, or_false] at bracket
    rcases bracket with rfl | rfl | rfl <;> contradiction
  · contradiction

theorem wordFirst (word : IsWord name) : ∃ c cs, squeeze name = c :: cs := by
  rw [squeezeWord word]
  refine List.exists_cons_of_ne_nil fun empty => word.1 ?_
  exact String.toList_eq_nil_iff.mp empty

theorem opensOther (opens : T.Opens rest) (word : IsWord name) (xs ys : List Char) :
    rest ++ xs ≠ squeeze name ++ ys := by
  obtain ⟨c, cs, split⟩ := wordFirst word
  have bare := wordBare word (split ▸ List.mem_cons_self ..)
  rw [split]
  rintro same
  rcases opens with ⟨more, rfl⟩ | ⟨params, _, more, rfl⟩
  · exact bare (by simp [← (List.cons.inj same).1])
  · exact bare (by simp [← (List.cons.inj same).1])

theorem opensOtherPointer (opens : T.Opens rest) (word : IsWord name) (lacks : T.Lacks name) (xs ys : List Char) :
    rest ++ xs ≠ ['(', '*'] ++ (squeeze name ++ ys) := by
  intro same
  rcases opens with ⟨more, rfl⟩ | ⟨params, listed, more, rfl⟩
  · simp at same
  · have inside : squeeze params ++ ')' :: (more ++ xs) = '*' :: (squeeze name ++ ys) := by simpa using same
    cases split : squeeze params with
    | nil => simp [split] at inside
    | cons c cs =>
      rw [split, List.cons_append, List.cons.injEq] at inside
      rcases List.append_eq_append_iff.mp inside.2 with ⟨tail, within, ended⟩ | ⟨tail, beyond, _⟩
      · -- the list ends in the name, or where the name ends
        cases tail with
        | nil => exact lacks params listed ⟨[c], [], by simp [split, within]⟩
        | cons last tail =>
          obtain ⟨rfl, _⟩ := List.cons.inj ended
          exact wordBare word (c := ')') (by simp [within]) (by simp)
      · exact lacks params listed ⟨[c], tail, by simp [split, beyond]⟩

namespace CType

theorem flatMismatch {xs ys : List Char} (same : T.suffix ++ xs = T.before ++ ys)
    (length : ys.length = xs.length + T.after.length) :
    T.isSimple = true ∧ xs = ys ∨ ∃ rest, T.Opens rest ∧ rest ++ xs = ys := by
  have lengths := congrArg List.length same
  simp only [List.length_append] at lengths
  have flat : T.enclosures = 0 := by
    have reference := T.referenceLength
    omega
  rcases suffixOpens flat with simple | ⟨rest, split, opens⟩
  · rw [(simpleStars simple).1] at same
    exact .inl ⟨simple, List.append_cancel_left same⟩
  · rw [split, List.append_assoc] at same
    exact .inr ⟨rest, opens, List.append_cancel_left same⟩

theorem flatSame {xs ys : List Char} (same : (pointer T).stem ++ ((pointer T).suffix ++ xs) =
    (pointer T).stem ++ ((pointer T).before ++ ys)) (length : ys.length = xs.length + (pointer T).after.length) :
    T.isSimple = true := by
  have lengths := congrArg List.length same
  simp only [List.length_append] at lengths
  have reference := (pointer T).referenceLength
  exact flatPointer (by omega)

theorem declaredDiffers (no : T.isDeclarable = false) (word : IsWord name) (lacks : T.Lacks name) :
    squeeze (T.declared name) ≠ squeeze (T.reference name) := by
  intro same
  rw [squeezeReference] at same
  cases T with
  | base text => contradiction
  | array element sizes =>
    simp only [declared, squeezeAppend, squeezeText, squeezeBlank, List.append_nil, stem, before, after,
      List.append_assoc, List.append_cancel_left_eq] at same
    rcases flatMismatch same (by simp; omega) with ⟨simple, _⟩ | ⟨rest, opens, clash⟩
    · exact absurd simple (by simpa [isDeclarable] using no)
    · exact opensOther opens word _ _ clash
  | function result params =>
    simp only [declared, squeezeAppend, squeezeText, squeezeBlank, List.append_nil, stem, before, after,
      List.append_assoc, List.append_cancel_left_eq] at same
    rcases flatMismatch same (by simp; omega) with ⟨simple, _⟩ | ⟨rest, opens, clash⟩
    · exact absurd simple (by simpa [isDeclarable] using no)
    · exact opensOther opens word _ _ clash
  | pointer target =>
    cases target with
    | base text => contradiction
    | pointer inner =>
      simp only [declared, squeezeAppend, squeezeText, squeezeBlank, List.append_nil, List.append_assoc] at same
      exact absurd (flatSame same (by simp)) (by simpa [isDeclarable, isSimple] using no)
    | array element sizes =>
      simp only [declared, squeezeAppend, squeezeText, squeezeBlank, List.append_nil, List.append_assoc] at same
      exact absurd (flatSame same (by simp)) (by simp [isSimple])
    | function result params =>
      simp only [declared, squeezeAppend, squeezeText, squeezeParenStar, squeezeParens, squeezeParenClosed, stem, before,
        after, isSuffixed, if_true, List.append_assoc, List.append_cancel_left_eq] at same
      rcases flatMismatch same (by simp; omega) with ⟨simple, _⟩ | ⟨rest, opens, clash⟩
      · exact absurd simple (by simpa [isDeclarable] using no)
      · exact opensOtherPointer opens word (fun params mem => lacks params (List.mem_cons_of_mem _ mem)) _ _ clash

theorem arrayDeclaredDiffers {sizes : List String} (no : T.isArrayable sizes = false) (word : IsWord name)
    (lacks : T.Lacks name) :
    squeeze (T.declared name ++ sizesText sizes) ≠ squeeze ((array T sizes).reference name) := by
  intro same
  rw [squeezeReference] at same
  obtain ⟨opened, bracket⟩ := sizesOpen sizes
  cases T with
  | base text => contradiction
  | array element own =>
    simp only [declared, squeezeAppend, squeezeText, squeezeBlank, List.append_nil, stem, before, after,
      List.append_assoc, List.append_cancel_left_eq] at same
    rcases flatMismatch same (by simp; omega) with ⟨simple, swapped⟩ | ⟨rest, opens, clash⟩
    · have either : squeeze (sizesText own) ++ squeeze (sizesText sizes) =
          squeeze (sizesText sizes) ++ squeeze (sizesText own) := by
        simpa [(simpleStars simple).2.1] using swapped
      simp [isArrayable, simple, either] at no
    · exact opensOther opens word _ _ clash
  | function result params =>
    simp only [declared, squeezeAppend, squeezeText, squeezeBlank, List.append_nil, stem, before, after,
      List.append_assoc, List.append_cancel_left_eq] at same
    rcases flatMismatch same (by simp; omega) with ⟨_, swapped⟩ | ⟨rest, opens, clash⟩
    · simp [bracket] at swapped
    · exact opensOther opens word _ _ clash
  | pointer target =>
    cases target with
    | base text => contradiction
    | pointer inner =>
      simp only [declared, squeezeAppend, squeezeText, squeezeBlank, List.append_nil, List.append_assoc] at same
      exact absurd (flatSame same (by simp [after, Nat.add_assoc])) (by simpa [isArrayable, isSimple] using no)
    | array element own =>
      simp only [declared, squeezeAppend, squeezeText, squeezeBlank, List.append_nil, List.append_assoc] at same
      exact absurd (flatSame same (by simp [after, Nat.add_assoc])) (by simp [isSimple])
    | function result params =>
      simp only [declared, squeezeAppend, squeezeText, squeezeParenStar, squeezeParens, squeezeParenClosed, stem, before,
        after, isSuffixed, if_true, List.append_assoc, List.append_cancel_left_eq] at same
      rcases flatMismatch same (by simp; omega) with ⟨_, swapped⟩ | ⟨rest, opens, clash⟩
      · simp [bracket] at swapped
      · exact opensOtherPointer opens word (fun params mem => lacks params (List.mem_cons_of_mem _ mem)) _ _ clash

theorem squeezeSimple (simple : T.isSimple = true) (d : String) :
    squeeze (T.reference d) = T.stem ++ T.suffix ++ squeeze d := by
  obtain ⟨stars, none, _⟩ := simpleStars simple
  simp [squeezeReference, stars, none]

theorem declaredSimple (simple : T.isSimple = true) (name : String) : T.declared name = T.text ++ " " ++ name := by
  cases T with
  | base text => rfl
  | pointer target => cases target <;> first | rfl | contradiction
  | array element sizes => contradiction
  | function result params => contradiction

theorem declaredSame (yes : T.isDeclarable = true) (name : String) :
    squeeze (T.declared name) = squeeze (T.reference name) := by
  have plain (simple : T.isSimple = true) : squeeze (T.declared name) = squeeze (T.reference name) := by
    simp [declaredSimple simple, squeezeText, squeezeSimple simple]
  cases T with
  | base text => exact plain rfl
  | array element sizes => simp [declared, squeezeText, reference, squeezeSimple yes]
  | function result params => simp [declared, squeezeText, reference, squeezeSimple yes]
  | pointer target =>
    cases target with
    | base text => exact plain rfl
    | pointer inner => exact plain yes
    | array element sizes => contradiction
    | function result params => simp [declared, squeezeText, reference, isSuffixed, squeezeSimple yes]

theorem arrayDeclaredSame {sizes : List String} (yes : T.isArrayable sizes = true) (name : String) :
    squeeze (T.declared name ++ sizesText sizes) = squeeze ((array T sizes).reference name) := by
  have plain (simple : T.isSimple = true) :
      squeeze (T.declared name ++ sizesText sizes) = squeeze ((array T sizes).reference name) := by
    simp [declaredSimple simple, squeezeText, reference, squeezeSimple simple]
  cases T with
  | base text => exact plain rfl
  | pointer target => exact plain yes
  | function result params => contradiction
  | array element own =>
    simp only [isArrayable, squeezeAppend, Bool.and_eq_true, beq_iff_eq] at yes
    simp [declared, squeezeText, reference, squeezeSimple yes.1, yes.2]

end CType

end Squeezed

open Pieces Render

def TypeNode.isPlain : TypeNode → Bool
  | raw _ | void | named _ => true
  | _ => false

/-- The type that a node stands for, with the texts of its plain types, sizes and parameters. -/
inductive Arena.Forms (a : Arena) : TypeRef → CType → Prop where
  | base {ty : TypeRef} {n : TypeNode} {text : String} (found : a.node ty = .ok n) (plain : n.isPlain = true)
      (rendered : a.render ty.ref = .ok text) : Forms a ty (.base text)
  | pointer {ty target : TypeRef} {T : CType} (found : a.node ty = .ok (.pointer target))
      (bare : a.commentsOf ty.ref = none) (below : Forms a target T) : Forms a ty (.pointer T)
  | array {ty element : TypeRef} {sizes : List ExprRef} {texts : List String} {T : CType}
      (found : a.node ty = .ok (.array element sizes)) (bare : a.commentsOf ty.ref = none)
      (written : List.Forall₂ (fun size text => a.render size.ref = .ok text) sizes texts)
      (below : Forms a element T) : Forms a ty (.array T texts)
  | function {ty result : TypeRef} {ps : List TypeRef} {variadic : Bool} {text : String} {T : CType}
      (found : a.node ty = .ok (.function result ps variadic)) (bare : a.commentsOf ty.ref = none)
      (written : a.Spells (params ps variadic) ("(" ++ text ++ ")")) (below : Forms a result T) :
      Forms a ty (.function T text)

section Written

variable {a : Arena} {ty : TypeRef} {T : CType} {name : String}

theorem sizesSpelled {sizes : List ExprRef} {texts : List String}
    (written : List.Forall₂ (fun size text => a.render (Handle.ref size) = .ok text) sizes texts) :
    a.Spells (arraySizes sizes) (sizesText texts) := by
  have each : a.Spells (sizes.flatMap fun size => inBrackets (ofHandle size))
      (String.join (texts.map fun size => "[" ++ size ++ "]")) := by
    induction written with
    | nil => exact .nil
    | cons told written ih =>
      rw [List.flatMap_cons, List.map_cons, String.join_cons]
      have one := Arena.spellsInBrackets.mpr ⟨_, Arena.spellsOfHandle.mpr told, rfl⟩
      exact Arena.spellsAppend.mpr ⟨_, _, one, ih, rfl⟩
  cases written with
  | nil => exact Arena.spellsOfText.mpr rfl
  | cons told written => exact each

theorem formedText (forms : a.Forms ty T) : a.render ty.ref = .ok T.text := by
  induction forms with
  | base found plain rendered => exact rendered
  | pointer found bare below ih =>
    refine (Arena.renderedBare found nofun bare).mpr ?_
    exact .child ih (Arena.spellsOfText.mpr rfl)
  | array found bare written below ih =>
    refine (Arena.renderedBare found nofun bare).mpr ?_
    exact .child ih (sizesSpelled written)
  | function found bare written below ih =>
    refine (Arena.renderedBare found nofun bare).mpr ?_
    rw [CType.text, String.append_assoc, String.append_assoc]
    exact .child ih (by simpa [String.append_assoc] using written)

theorem plainSpelled {text : String} (rendered : a.render ty.ref = .ok text) (named : name ≠ "") :
    a.Spells (plainDeclarator ty name) (text ++ " " ++ name) := by
  rw [plainDeclarator, nameSuffix, if_neg named, String.append_assoc]
  exact .child rendered (by simp [Arena.spellsCode, Arena.spellsNil])

theorem declaratorFormed (forms : a.Forms ty T) (named : name ≠ "") :
    a.Spells (declarator a ty name) (T.declared name) := by
  have whole := formedText forms
  unfold declarator
  cases forms with
  | @base _ n text found plain rendered =>
    rw [found]
    cases n <;> first | contradiction | exact plainSpelled rendered named
  | array found bare written below =>
    rw [found]
    exact Arena.spellsAppend.mpr ⟨_, _, plainSpelled (formedText below) named, sizesSpelled written, rfl⟩
  | function found bare written below =>
    rw [found]
    have front := plainSpelled (formedText below) named
    refine Arena.spellsAppend.mpr ⟨_, _, front, written, ?_⟩
    simp [CType.declared, String.append_assoc]
  | @pointer _ target _ found bare below =>
    rw [found]
    show a.Spells (Pieces.ofExcept (a.node target >>= _)) _
    cases below with
    | @base _ n text there plain rendered =>
      rw [there]
      cases n <;> first | contradiction | exact plainSpelled whole named
    | pointer there _ _ | array there _ _ _ =>
      rw [there]
      exact plainSpelled whole named
    | @function _ _ _ _ text R there _ written result =>
      rw [there]
      have split : (CType.pointer (.function R text)).declared name =
          R.text ++ ("(*" ++ (name ++ (")" ++ ("(" ++ text ++ ")")))) := by
        simp [CType.declared, ← String.toList_inj]
      rw [split]
      exact .child (formedText result) (.code "(*" (.code name (.code ")" written)))

/-- Up to blanks, the text declares the name with the type if `right` holds, and else for no name that is a word and
does not occur in the type. -/
def Declares (right : Bool) (text : String) (T : CType) (name : String) : Prop :=
  (right = true → squeeze text = squeeze (T.reference name)) ∧
    (right = false → IsWord name → T.Lacks name → squeeze text ≠ squeeze (T.reference name))

theorem declaredDeclares (T : CType) (name : String) : Declares T.isDeclarable (T.declared name) T name :=
  ⟨fun yes => CType.declaredSame yes name, fun no word lacks => CType.declaredDiffers no word lacks⟩

theorem varSpelled (shape : VarShape) {tail : String} (forms : a.Forms ty T) (named : name ≠ "")
    (shaped : a.Spells (varShape shape) tail) :
    a.Spells (Render.decl a (.var ⟨.ofString name, ty, none, shape, .none⟩)) (T.declared name ++ tail) := by
  have word : declaredName ⟨.ofString name, ty, none, shape, .none⟩ = name := by
    simp [declaredName, QualName.isBlank, QualName.ofString, QualName.text, VarQualifiers.none, named]
  have whole : Render.decl a (.var ⟨.ofString name, ty, none, shape, .none⟩) =
      declarator a ty name ++ varShape shape := by
    rw [Render.decl, Render.var, word]
    simp [flagged, VarQualifiers.none, initializer, ofOption]
  rw [whole]
  exact Arena.spellsAppend.mpr ⟨_, tail, declaratorFormed forms named, shaped, rfl⟩

theorem declaratorsDenote (forms : a.Forms ty T) (named : name ≠ "") :
    (∀ d : DeclRef, a.node d = .ok (.var ⟨.ofString name, ty, none, .plain, .none⟩) → a.commentsOf d.ref = none →
      ∃ text, a.render d.ref = .ok text ∧ Declares T.isDeclarable text T name) ∧
    (∀ (d : DeclRef) (sizes : List ExprRef) (texts : List String),
      a.node d = .ok (.var ⟨.ofString name, ty, none, .array sizes, .none⟩) → a.commentsOf d.ref = none →
      List.Forall₂ (fun size text => a.render (Handle.ref size) = .ok text) sizes texts →
      ∃ text, a.render d.ref = .ok text ∧ Declares (T.isArrayable texts) text (.array T texts) name) ∧
    (∀ (d : DeclRef) (synonym : TypeRef), a.node d = .ok (.typeDef synonym) →
      a.node synonym = .ok (.synonym (.ofString name) ty) → a.commentsOf d.ref = none →
      ∃ text, a.render d.ref = .ok ("typedef " ++ text) ∧ Declares T.isDeclarable text T name) := by
  refine ⟨fun d found bare => ?_, fun d sizes texts found bare written => ?_, fun d synonym found aliased bare => ?_⟩
  · have spelled := varSpelled .plain forms named .nil
    refine ⟨_, (Arena.renderedBare found nofun bare).mpr spelled, ?_⟩
    rw [String.append_empty]
    exact declaredDeclares T name
  · have spelled := varSpelled (.array sizes) forms named (sizesSpelled written)
    refine ⟨_, (Arena.renderedBare found nofun bare).mpr spelled, fun yes => CType.arrayDeclaredSame yes name, ?_⟩
    exact fun no word lacks => CType.arrayDeclaredDiffers no word lacks
  · refine ⟨_, (Arena.renderedBare found nofun bare).mpr ?_, declaredDeclares T name⟩
    have text : (QualName.ofString name).text = name := by simp [QualName.ofString, QualName.text]
    have read : synonymAt a synonym = .ok (.ofString name, ty) := by
      unfold synonymAt
      rw [aliased]
      rfl
    show a.Spells (Pieces.ofExcept (synonymAt a synonym >>= _)) _
    rw [read]
    exact .code "typedef " (text.symm ▸ declaratorFormed forms named)

end Written

-- arrays of function pointers and of arrays, pointers to arrays and to function pointers, functions that return them
example (T : CType) (params : String) (sizes others : List String) :
    (CType.array (.pointer (.function T params)) sizes).isDeclarable = false ∧
      (CType.array (.array T sizes) others).isDeclarable = false ∧
      (CType.pointer (.array T sizes)).isDeclarable = false ∧
      (CType.pointer (.pointer (.function T params))).isDeclarable = false ∧
      (CType.function (.pointer (.function T params)) params).isDeclarable = false :=
  ⟨rfl, rfl, rfl, rfl, rfl⟩

def World.arrayPointer : World :=
  (((((empty.grow .c).act 0 (.type (.raw "int"))).act 0 (.expr (.raw "3"))).act 0
    (.type (.array ⟨0, 1⟩ [⟨0, 0⟩]))).act 0 (.type (.pointer ⟨0, 2⟩))).act 0
    (.decl (.var (.ofString "x") ⟨0, 3⟩ none))

theorem arrayPointerMisdeclared : ∃ a text, World.arrayPointer.session.arenas[0]? = some a ∧
    a.render ⟨.decl, 0, 0⟩ = .ok text ∧ squeeze text ≠ squeeze "int (*x)[3]" := by
  obtain ⟨a, here⟩ : ∃ a, World.arrayPointer.session.arenas[0]? = some a := ⟨_, rfl⟩
  have forms : a.Forms ⟨0, 3⟩ (.pointer (.array (.base "int") ["3"])) := by
    cases here
    exact .pointer rfl rfl (.array rfl rfl (.cons rfl .nil) (.base rfl rfl rfl))
  have found : a.node (⟨0, 0⟩ : DeclRef) = .ok (.var ⟨.ofString "x", ⟨0, 3⟩, none, .plain, .none⟩) := by
    cases here
    rfl
  have bare : a.commentsOf ⟨.decl, 0, 0⟩ = none := by
    cases here
    rfl
  obtain ⟨text, rendered, _, differs⟩ := (declaratorsDenote forms (by decide)).1 ⟨0, 0⟩ found bare
  have word : IsWord "x" := ⟨by decide, List.forall_mem_singleton.mpr (.inl rfl)⟩
  exact ⟨a, text, here, rendered, differs rfl word nofun⟩

end CSource
