import CSource.Proofs.Short
import CSource.Proofs.Tokens

/-!
Recovery of short forms. Trees of applications are told apart by their texts: what follows a parenthesis says which
application it opens, because operators, words and separators have no characters in common, and a reader that goes by
the next character finds the tree again.
-/

namespace CSource

open Build
open Tokens (separators StopsAt stopsCons spanStops)

inductive ShortTree where
  | leaf (name : String)
  | unary (op : String) (x : ShortTree)
  | postfixed (x : ShortTree) (op : String)
  | binary (lhs : ShortTree) (op : String) (rhs : ShortTree)
  | call (callee : ShortTree) (args : List ShortTree)
  | index (base : ShortTree) (indices : List ShortTree)

/-- The characters of words. -/
structure WordClass where
  holds : Char → Bool
  apart : ∀ c ∈ separators, holds c = false

namespace WordClass

def isOperator (W : WordClass) (c : Char) : Bool := !W.holds c && !separators.contains c

def IsWord (W : WordClass) (name : String) : Prop := name ≠ "" ∧ ∀ c ∈ name.toList, W.holds c = true

def IsOperator (W : WordClass) (op : String) : Prop := op ≠ "" ∧ ∀ c ∈ op.toList, W.isOperator c = true

def identifiers : WordClass where
  holds c := c.isAlphanum || c == '_'
  apart c mem := by
    have others : separators.all fun c => !(c.isAlphanum || c == '_') := by decide
    exact Bool.not_eq_true' _ ▸ List.all_eq_true.mp others c mem

theorem IsWord.ofAll {W : WordClass} {name : String} (given : name ≠ "") (all : name.toList.all W.holds = true) :
    W.IsWord name :=
  ⟨given, List.all_eq_true.mp all⟩

theorem IsOperator.ofAll {W : WordClass} {op : String} (given : op ≠ "") (all : op.toList.all W.isOperator = true) :
    W.IsOperator op :=
  ⟨given, List.all_eq_true.mp all⟩

end WordClass

namespace ShortTree

inductive Lawful (W : WordClass) : ShortTree → Prop where
  | leaf {name : String} (word : W.IsWord name) : Lawful W (.leaf name)
  | unary {op : String} {x : ShortTree} (operator : W.IsOperator op) (inner : Lawful W x) : Lawful W (.unary op x)
  | postfixed {x : ShortTree} {op : String} (inner : Lawful W x) (operator : W.IsOperator op) :
      Lawful W (.postfixed x op)
  | binary {lhs rhs : ShortTree} {op : String} (left : Lawful W lhs) (operator : W.IsOperator op)
      (right : Lawful W rhs) : Lawful W (.binary lhs op rhs)
  | call {callee : ShortTree} {args : List ShortTree} (inner : Lawful W callee) (each : ∀ x ∈ args, Lawful W x) :
      Lawful W (.call callee args)
  | index {base : ShortTree} {indices : List ShortTree} (inner : Lawful W base) (each : ∀ x ∈ indices, Lawful W x) :
      Lawful W (.index base indices)

def name? : ShortTree → Option String
  | leaf name => some name
  | _ => none

def enclose : Option String → String → String
  | some name, _ => name
  | none, text => "(" ++ text ++ ")"

mutual

def text : ShortTree → String
  | leaf name => name
  | unary op x => "(" ++ (op ++ enclose x.name? x.text) ++ ")"
  | postfixed x op => "(" ++ (enclose x.name? x.text ++ op) ++ ")"
  | binary lhs op rhs => "(" ++ (enclose lhs.name? lhs.text ++ (op ++ enclose rhs.name? rhs.text)) ++ ")"
  | call callee args => "(" ++ (enclose callee.name? callee.text ++ ("(" ++ ",".intercalate (texts args) ++ ")")) ++ ")"
  | index base indices =>
    "(" ++ (enclose base.name? base.text ++ String.join ((texts indices).map fun t => "[" ++ t ++ "]")) ++ ")"

def texts : List ShortTree → List String
  | [] => []
  | x :: xs => enclose x.name? x.text :: texts xs

end

def operand (x : ShortTree) : String := enclose x.name? x.text

def asOperand : Option String → Build ExprRef → Build Operand
  | some name, _ => pure (.ident name)
  | none, act => .expr <$> act

mutual

def build : ShortTree → Build ExprRef
  | leaf name => Build.operand (.ident name)
  | unary op x => do shortUnary op (← asOperand x.name? x.build)
  | postfixed x op => do shortPostfix (← asOperand x.name? x.build) op
  | binary lhs op rhs => do
    let l ← asOperand lhs.name? lhs.build
    shortBinary l op (← asOperand rhs.name? rhs.build)
  | call callee args => do
    let f ← asOperand callee.name? callee.build
    shortCall f (← buildEach args)
  | index base indices => do
    let b ← asOperand base.name? base.build
    shortIndex b (← buildEach indices)

def buildEach : List ShortTree → Build (List Operand)
  | [] => pure []
  | x :: xs => do
    let y ← asOperand x.name? x.build
    pure (y :: (← buildEach xs))

end

section Built

variable {a b : Arena}

/-- The action finds or makes an operand of the text. -/
def Operates (act : Build Operand) (a : Arena) (text : String) : Prop :=
  ∃ x b, act.run a = .ok x b ∧ Frame [] [] a b ∧ b.Quiet ∧ b.OperandText x text

theorem operates {x : ShortTree} (quiet : a.Quiet) (made : Makes x.build a x.text) :
    Operates (asOperand x.name? x.build) a x.operand := by
  obtain ⟨e, b, ran, frame, quiet', own, rendered⟩ := made
  have closed : (Operand.expr <$> x.build).run a = .ok (.expr e) b := by
    rw [← bind_pure_comp, EStateM.run_bind, ran]
    rfl
  cases x with
  | leaf name => exact ⟨.ident name, a, rfl, .refl, quiet, .ident name⟩
  | _ => exact ⟨.expr e, b, closed, frame, quiet', .expr own rendered⟩

theorem Operates.makes {act : Build Operand} {f : Operand → Build ExprRef} {text inner : String}
    (first : Operates act a inner)
    (rest : ∀ x b, Frame [] [] a b → b.Quiet → b.OperandText x inner → Makes (f x) b text) : Makes (act >>= f) a text := by
  obtain ⟨x, b, ran, frame, quiet, told⟩ := first
  exact .bind ran frame (rest x b frame quiet told)

mutual

theorem makes : (x : ShortTree) → {a : Arena} → a.Quiet → Makes x.build a x.text
  | leaf name, a, quiet => makesOperand quiet (.ident name)
  | unary op x, a, quiet => (operates quiet (x.makes quiet)).makes fun _ _ _ quiet told => makesUnary quiet told op
  | postfixed x op, a, quiet => (operates quiet (x.makes quiet)).makes fun _ _ _ quiet told => makesPostfix quiet told op
  | binary lhs op rhs, a, quiet => by
    refine (operates quiet (lhs.makes quiet)).makes fun l b _ quiet told => ?_
    exact (operates quiet (rhs.makes quiet)).makes fun r e frame quiet tells => makesBinary quiet (told.later frame) op tells
  | call callee args, a, quiet => by
    refine (operates quiet (callee.makes quiet)).makes fun f b _ quiet told => ?_
    obtain ⟨xs, e, ran, frame, quiet, tells⟩ := makesEach args quiet
    exact .bind ran frame (makesCall quiet (told.later frame) tells)
  | index base indices, a, quiet => by
    refine (operates quiet (base.makes quiet)).makes fun f b _ quiet told => ?_
    obtain ⟨xs, e, ran, frame, quiet, tells⟩ := makesEach indices quiet
    exact .bind ran frame (makesIndex quiet (told.later frame) tells)

theorem makesEach : (xs : List ShortTree) → {a : Arena} → a.Quiet →
    ∃ ys b, (buildEach xs).run a = .ok ys b ∧ Frame [] [] a b ∧ b.Quiet ∧ List.Forall₂ b.OperandText ys (texts xs)
  | [], a, quiet => ⟨[], a, rfl, .refl, quiet, .nil⟩
  | x :: xs, a, quiet => by
    obtain ⟨y, b, ran, frame, quiet, told⟩ := operates quiet (x.makes quiet)
    obtain ⟨ys, e, rest, later, quiet, tells⟩ := makesEach xs quiet
    refine ⟨y :: ys, e, ?_, frame.trans later, quiet, .cons (told.later later) tells⟩
    rw [buildEach, EStateM.run_bind, ran]
    show ((buildEach xs >>= _) : Build _).run b = _
    rw [EStateM.run_bind, rest]
    rfl

end

end Built

end ShortTree

section Reading

open ShortTree

variable (W : WordClass)

def expect (c : Char) : List Char → Option (List Char)
  | d :: rest => if d = c then some rest else none
  | [] => none

mutual

def readOperand : Nat → List Char → Option (ShortTree × List Char)
  | 0, _ => none
  | n + 1, cs =>
    match expect '(' cs with
    | some rest => do
      let (x, rest) ← readApplication n rest
      pure (x, ← expect ')' rest)
    | none => some (leaf (String.ofList (cs.takeWhile W.holds)), cs.dropWhile W.holds)

def readApplication : Nat → List Char → Option (ShortTree × List Char)
  | 0, _ => none
  | n + 1, cs => do
    let cs ← expect '(' cs
    match cs.takeWhile W.isOperator with
    | [] =>
      let (x, rest) ← readOperand n cs
      readApplied n x rest
    | op =>
      let (x, rest) ← readOperand n (cs.dropWhile W.isOperator)
      pure (unary (String.ofList op) x, ← expect ')' rest)

def readApplied : Nat → ShortTree → List Char → Option (ShortTree × List Char)
  | 0, _, _ => none
  | n + 1, x, cs =>
    match cs.takeWhile W.isOperator with
    | [] =>
      match expect '(' cs with
      | some rest => do
        let (args, rest) ← readArgs n rest
        pure (call x args, ← expect ')' rest)
      | none => do
        let (indices, rest) ← readIndices n cs
        pure (index x indices, rest)
    | op =>
      let rest := cs.dropWhile W.isOperator
      match expect ')' rest with
      | some rest => pure (postfixed x (String.ofList op), rest)
      | none => do
        let (y, rest) ← readOperand n rest
        pure (binary x (String.ofList op) y, ← expect ')' rest)

def readArgs : Nat → List Char → Option (List ShortTree × List Char)
  | 0, _ => none
  | n + 1, cs =>
    match expect ')' cs with
    | some rest => some ([], rest)
    | none => do
      let (x, rest) ← readOperand n cs
      let (xs, rest) ← readMore n rest
      pure (x :: xs, rest)

def readMore : Nat → List Char → Option (List ShortTree × List Char)
  | 0, _ => none
  | n + 1, cs =>
    match expect ',' cs with
    | some rest => do
      let (x, rest) ← readOperand n rest
      let (xs, rest) ← readMore n rest
      pure (x :: xs, rest)
    | none => do pure ([], ← expect ')' cs)

def readIndices : Nat → List Char → Option (List ShortTree × List Char)
  | 0, _ => none
  | n + 1, cs =>
    match expect '[' cs with
    | some rest => do
      let (x, rest) ← readOperand n rest
      let (xs, rest) ← readIndices n (← expect ']' rest)
      pure (x :: xs, rest)
    | none => do pure ([], ← expect ')' cs)

end

/-- The tree of a text. A reader never goes deeper than there are characters. -/
def parseShort (text : String) : Option ShortTree :=
  let cs := text.toList
  match expect '(' cs with
  | some _ => (readApplication W cs.length cs).map (·.1)
  | none => (readOperand W cs.length cs).map (·.1)

end Reading

section Recovered

open ShortTree

variable {W : WordClass} {n k : Nat} {x y : ShortTree} {xs : List ShortTree} {op : String} {rest : List Char}

theorem expectSame (c : Char) : expect c (c :: rest) = some rest := if_pos rfl

theorem expectOther {c d : Char} (other : d ≠ c) : expect c (d :: rest) = none := if_neg other

theorem operandApplied (applied : x.name? = none) : x.operand.toList = '(' :: (x.text.toList ++ [')']) := by
  simp [ShortTree.operand, enclose, applied]

theorem wordHead {name : String} (word : W.IsWord name) : ∃ c cs, name.toList = c :: cs ∧ W.holds c = true := by
  obtain ⟨c, cs, split⟩ := List.exists_cons_of_ne_nil fun empty => word.1 (String.toList_eq_nil_iff.mp empty)
  exact ⟨c, cs, split, word.2 c (by simp [split])⟩

theorem operandHead (lawful : x.Lawful W) :
    ∃ c cs, x.operand.toList = c :: cs ∧ W.isOperator c = false ∧ c ≠ ')' := by
  cases lawful with
  | @leaf name word =>
    obtain ⟨c, cs, split, holds⟩ := wordHead word
    refine ⟨c, cs, split, by simp [WordClass.isOperator, holds], ?_⟩
    rintro rfl
    exact absurd holds (by simp [W.apart ')' (by decide)])
  | _ => exact ⟨'(', _, operandApplied rfl, by simp [WordClass.isOperator, separators], by decide⟩

def Reads (W : WordClass) (n : Nat) : Prop :=
  ∀ x : ShortTree, x.Lawful W → x.operand.toList.length ≤ n → ∀ rest, StopsAt W.holds rest →
    readOperand W n (x.operand.toList ++ rest) = some (x, rest)

theorem separatorStops {c : Char} (mem : c ∈ separators) : StopsAt W.holds (c :: rest) := stopsCons (W.apart c mem)

theorem operatorHead (operator : W.IsOperator op) : ∃ c cs, op.toList = c :: cs ∧ W.isOperator c = true := by
  obtain ⟨c, cs, split⟩ := List.exists_cons_of_ne_nil fun empty => operator.1 (String.toList_eq_nil_iff.mp empty)
  exact ⟨c, cs, split, operator.2 c (by simp [split])⟩

theorem operatorStops (operator : W.IsOperator op) : StopsAt W.holds (op.toList ++ rest) := by
  obtain ⟨c, cs, split, holds⟩ := operatorHead operator
  rw [split]
  refine stopsCons ?_
  simp only [WordClass.isOperator, Bool.and_eq_true, Bool.not_eq_true'] at holds
  exact holds.1

def moreText (xs : List ShortTree) : List Char := xs.flatMap fun x => ',' :: x.operand.toList

def indicesText (xs : List ShortTree) : List Char := xs.flatMap fun x => '[' :: (x.operand.toList ++ [']'])

theorem moreCons (x : ShortTree) (xs : List ShortTree) : moreText (x :: xs) = ',' :: (x.operand.toList ++ moreText xs) :=
  rfl

theorem indicesCons (x : ShortTree) (xs : List ShortTree) :
    indicesText (x :: xs) = '[' :: (x.operand.toList ++ ']' :: indicesText xs) := by
  simp [indicesText]

theorem moreStops (xs : List ShortTree) (rest : List Char) : StopsAt W.holds (moreText xs ++ ')' :: rest) := by
  cases xs with
  | nil => exact separatorStops (by decide)
  | cons x xs => exact separatorStops (by decide)

theorem moreRead (reads : ∀ m < n, Reads W m) (lawful : ∀ x ∈ xs, x.Lawful W) (length : (moreText xs).length < k)
    (below : k ≤ n) : readMore W k (moreText xs ++ ')' :: rest) = some (xs, rest) := by
  induction xs generalizing k with
  | nil =>
    cases k with
    | zero => contradiction
    | succ k => simp [readMore, moreText, expect]
  | cons x xs ih =>
    cases k with
    | zero => contradiction
    | succ k =>
      rw [moreCons, List.length_cons, List.length_append] at length
      have first := reads k (by omega) x (lawful x (List.mem_cons_self ..)) (by omega) _ (moreStops xs rest)
      have others := ih (fun y mem => lawful y (List.mem_cons_of_mem _ mem)) (k := k) (by omega) (by omega)
      rw [moreCons, List.cons_append, List.append_assoc, readMore, expectSame]
      simp [first, others]

theorem indicesRead (reads : ∀ m < n, Reads W m) (lawful : ∀ x ∈ xs, x.Lawful W)
    (length : (indicesText xs).length < k) (below : k ≤ n) :
    readIndices W k (indicesText xs ++ ')' :: rest) = some (xs, rest) := by
  induction xs generalizing k with
  | nil =>
    cases k with
    | zero => contradiction
    | succ k => simp [readIndices, indicesText, expect]
  | cons x xs ih =>
    cases k with
    | zero => contradiction
    | succ k =>
      rw [indicesCons, List.length_cons, List.length_append, List.length_cons] at length
      have first := reads k (by omega) x (lawful x (List.mem_cons_self ..)) (by omega)
        (']' :: (indicesText xs ++ ')' :: rest)) (separatorStops (by decide))
      have others := ih (fun y mem => lawful y (List.mem_cons_of_mem _ mem)) (k := k) (by omega) (by omega)
      rw [indicesCons, List.cons_append, List.append_assoc, List.cons_append, readIndices, expectSame]
      simp [first, others, expectSame]

def argsText (xs : List ShortTree) : List Char := (",".intercalate (texts xs)).toList

theorem argsCons (x : ShortTree) (xs : List ShortTree) : argsText (x :: xs) = x.operand.toList ++ moreText xs := by
  induction xs generalizing x with
  | nil => simp [argsText, texts, moreText, ShortTree.operand]
  | cons y xs ih =>
    have split : ",".intercalate (texts (x :: y :: xs)) = x.operand ++ "," ++ ",".intercalate (texts (y :: xs)) := by
      simp [texts, ShortTree.operand]
    have later : (",".intercalate (texts (y :: xs))).toList = y.operand.toList ++ moreText xs := ih y
    rw [argsText, split, String.toList_append, later, moreCons]
    simp

theorem argsRead (reads : ∀ m < n, Reads W m) (lawful : ∀ x ∈ xs, x.Lawful W)
    (length : (argsText xs).length + 1 < k) (below : k ≤ n) :
    readArgs W k (argsText xs ++ ')' :: rest) = some (xs, rest) := by
  cases k with
  | zero => contradiction
  | succ k =>
    cases xs with
    | nil => simp [readArgs, argsText, texts, expect]
    | cons x xs =>
      rw [argsCons, List.length_append] at length
      obtain ⟨c, cs, split, _, other⟩ := operandHead (lawful x (List.mem_cons_self ..))
      have first := reads k (by omega) x (lawful x (List.mem_cons_self ..)) (by omega) _ (moreStops xs rest)
      have others : readMore W k (moreText xs ++ ')' :: rest) = some (xs, rest) :=
        moreRead reads (fun y mem => lawful y (List.mem_cons_of_mem _ mem)) (by omega) (by omega)
      have operandFirst : expect ')' (x.operand.toList ++ (moreText xs ++ ')' :: rest)) = none := by
        rw [split]
        exact expectOther other
      rw [argsCons, List.append_assoc, readArgs, operandFirst]
      simp [first, others]

theorem operatorSpan (operator : W.IsOperator op) {c : Char} (other : W.isOperator c = false) (rest : List Char) :
    (op.toList ++ c :: rest).takeWhile W.isOperator = op.toList ∧
      (op.toList ++ c :: rest).dropWhile W.isOperator = c :: rest :=
  spanStops operator.2 (stopsCons other)

theorem separatorOther {c : Char} (mem : c ∈ separators) : W.isOperator c = false := by
  simp [WordClass.isOperator, mem]

theorem postfixRead (operator : W.IsOperator op) :
    readApplied W (k + 1) x (op.toList ++ ')' :: rest) = some (postfixed x op, rest) := by
  obtain ⟨c, cs, split, _⟩ := operatorHead operator
  obtain ⟨taken, left⟩ := operatorSpan operator (separatorOther (c := ')') (by decide)) rest
  have whole : String.ofList (c :: cs) = op := by rw [← split, String.ofList_toList]
  rw [readApplied, taken, left, split]
  simp [expectSame, whole]

theorem binaryRead (reads : Reads W k) (operator : W.IsOperator op) (lawful : y.Lawful W)
    (length : y.operand.toList.length ≤ k) :
    readApplied W (k + 1) x (op.toList ++ (y.operand.toList ++ ')' :: rest)) = some (binary x op y, rest) := by
  obtain ⟨c, cs, split, _⟩ := operatorHead operator
  obtain ⟨d, ds, headed, other, open'⟩ := operandHead lawful
  have second := reads y lawful length (')' :: rest) (separatorStops (by decide))
  rw [headed, List.cons_append] at second ⊢
  obtain ⟨taken, left⟩ := operatorSpan operator other (ds ++ ')' :: rest)
  have whole : String.ofList (c :: cs) = op := by rw [← split, String.ofList_toList]
  rw [readApplied, taken, left, split]
  simp [expectOther open', second, expectSame, whole]

theorem callRead (reads : ∀ m < n, Reads W m) (lawful : ∀ y ∈ xs, y.Lawful W)
    (length : (argsText xs).length + 1 < k) (below : k ≤ n) :
    readApplied W (k + 1) x ('(' :: (argsText xs ++ ')' :: ')' :: rest)) =
      some (call x xs, rest) := by
  have args : readArgs W k (argsText xs ++ ')' :: ')' :: rest) = some (xs, ')' :: rest) :=
    argsRead reads lawful length below
  have none : ('(' :: (argsText xs ++ ')' :: ')' :: rest)).takeWhile W.isOperator = [] := by
    rw [List.takeWhile_cons, separatorOther (by decide)]
    rfl
  rw [readApplied, none]
  simp [expectSame, args]

theorem indexRead (reads : ∀ m < n, Reads W m) (lawful : ∀ y ∈ xs, y.Lawful W)
    (length : (indicesText xs).length < k) (below : k ≤ n) :
    readApplied W (k + 1) x (indicesText xs ++ ')' :: rest) = some (index x xs, rest) := by
  have indices : readIndices W k (indicesText xs ++ ')' :: rest) = some (xs, rest) :=
    indicesRead reads lawful length below
  obtain ⟨c, cs, split, mem, other⟩ : ∃ c cs, indicesText xs ++ ')' :: rest = c :: cs ∧ c ∈ separators ∧ c ≠ '(' := by
    cases xs with
    | nil => exact ⟨_, _, rfl, by decide, by decide⟩
    | cons y ys => exact ⟨'[', _, rfl, by decide, by decide⟩
  have none : (indicesText xs ++ ')' :: rest).takeWhile W.isOperator = [] := by
    rw [split, List.takeWhile_cons, separatorOther mem]
    rfl
  have closed : expect '(' (indicesText xs ++ ')' :: rest) = Option.none := by
    rw [split]
    exact expectOther other
  rw [readApplied, none, closed]
  simp [indices]

theorem unaryRead (reads : Reads W n) (operator : W.IsOperator op) (lawful : x.Lawful W)
    (length : x.operand.toList.length ≤ n) :
    readApplication W (n + 1) ('(' :: (op.toList ++ (x.operand.toList ++ ')' :: rest))) = some (unary op x, rest) := by
  obtain ⟨c, cs, split, _⟩ := operatorHead operator
  obtain ⟨d, ds, headed, other, _⟩ := operandHead lawful
  have inner := reads x lawful length (')' :: rest) (separatorStops (by decide))
  rw [headed, List.cons_append] at inner ⊢
  obtain ⟨taken, left⟩ := operatorSpan operator other (ds ++ ')' :: rest)
  have whole : String.ofList (c :: cs) = op := by rw [← split, String.ofList_toList]
  rw [readApplication, expectSame]
  simp only [Option.bind_eq_bind, Option.bind_some]
  rw [taken, left]
  simp [split, inner, expectSame, whole]

theorem indicesJoin (xs : List ShortTree) :
    (String.join ((texts xs).map fun t => "[" ++ t ++ "]")).toList = indicesText xs := by
  induction xs with
  | nil => rfl
  | cons x xs ih =>
    rw [texts, List.map_cons, String.join_cons, String.toList_append, ih, indicesCons]
    simp [ShortTree.operand]

theorem operandLength (lawful : x.Lawful W) : 0 < x.operand.toList.length := by
  obtain ⟨c, cs, split, _⟩ := operandHead lawful
  simp [split]

theorem appliedRead {tail : List Char} (reads : Reads W (n + 1)) (lawful : x.Lawful W)
    (split : y.text.toList = '(' :: (x.operand.toList ++ tail)) (length : x.operand.toList.length ≤ n + 1)
    (stops : StopsAt W.holds (tail ++ rest)) (applied : readApplied W (n + 1) x (tail ++ rest) = some (y, rest)) :
    readApplication W (n + 2) (y.text.toList ++ rest) = some (y, rest) := by
  obtain ⟨c, cs, headed, other, _⟩ := operandHead lawful
  have first := reads x lawful length _ stops
  have none : (x.operand.toList ++ (tail ++ rest)).takeWhile W.isOperator = [] := by
    rw [headed, List.cons_append, List.takeWhile_cons, other]
    rfl
  rw [split, List.cons_append, List.append_assoc, readApplication, expectSame]
  simp [none, first, applied]

/-- The reader goes at most as deep as the text is long. -/
theorem applicationRead (reads : ∀ m < n, Reads W m) (lawful : x.Lawful W) (applied : x.name? = none)
    (length : x.text.toList.length ≤ n) : readApplication W n (x.text.toList ++ rest) = some (x, rest) := by
  cases lawful with
  | leaf word => contradiction
  | @unary op x operator inner =>
    have split : (unary op x).text.toList = '(' :: (op.toList ++ (x.operand.toList ++ [')'])) := by
      simp [text, ShortTree.operand]
    rw [split] at length
    simp only [List.length_cons, List.length_append, List.length_nil] at length
    obtain ⟨m, rfl⟩ : ∃ m, n = m + 1 := ⟨n - 1, by omega⟩
    rw [split]
    simpa using unaryRead (reads m (by omega)) operator inner (by omega)
  | @postfixed x op inner operator =>
    have split : (postfixed x op).text.toList = '(' :: (x.operand.toList ++ (op.toList ++ [')'])) := by
      simp [text, ShortTree.operand]
    have positive := operandLength inner
    rw [split, List.length_cons, List.length_append] at length
    obtain ⟨m, rfl⟩ : ∃ m, n = m + 2 := ⟨n - 2, by omega⟩
    refine appliedRead (reads (m + 1) (by omega)) inner split (by omega) ?_ ?_
    · simpa using operatorStops operator
    · simpa using postfixRead operator
  | @binary lhs rhs op left operator right =>
    have split : (binary lhs op rhs).text.toList =
        '(' :: (lhs.operand.toList ++ (op.toList ++ (rhs.operand.toList ++ [')']))) := by
      simp [text, ShortTree.operand]
    have positive := operandLength left
    rw [split] at length
    simp only [List.length_cons, List.length_append, List.length_nil] at length
    obtain ⟨m, rfl⟩ : ∃ m, n = m + 2 := ⟨n - 2, by omega⟩
    refine appliedRead (reads (m + 1) (by omega)) left split (by omega) ?_ ?_
    · simpa using operatorStops operator
    · simpa using binaryRead (reads m (by omega)) operator right (by omega)
  | @call callee args inner each =>
    have split : (call callee args).text.toList =
        '(' :: (callee.operand.toList ++ '(' :: (argsText args ++ [')', ')'])) := by
      simp [text, ShortTree.operand, argsText]
    have positive := operandLength inner
    rw [split] at length
    simp only [List.length_cons, List.length_append, List.length_nil] at length
    obtain ⟨m, rfl⟩ : ∃ m, n = m + 2 := ⟨n - 2, by omega⟩
    refine appliedRead (reads (m + 1) (by omega)) inner split (by omega) (separatorStops (by decide)) ?_
    simpa using callRead reads each (by omega) (by omega)
  | @index base indices inner each =>
    have split : (index base indices).text.toList = '(' :: (base.operand.toList ++ (indicesText indices ++ [')'])) := by
      rw [← indicesJoin]
      simp [text, ShortTree.operand]
    have positive := operandLength inner
    rw [split] at length
    simp only [List.length_cons, List.length_append, List.length_nil] at length
    obtain ⟨m, rfl⟩ : ∃ m, n = m + 2 := ⟨n - 2, by omega⟩
    refine appliedRead (reads (m + 1) (by omega)) inner split (by omega) ?_ ?_
    · cases indices with
      | nil => exact separatorStops (by decide)
      | cons => exact separatorStops (c := '[') (by decide)
    · simpa using indexRead reads each (by omega) (by omega)

theorem wordInside {name : String} (word : W.IsWord name) (rest : List Char) :
    expect '(' (name.toList ++ rest) = none := by
  obtain ⟨c, cs, split, holds⟩ := wordHead word
  rw [split]
  refine expectOther ?_
  rintro rfl
  exact absurd holds (by simp [W.apart '(' (by decide)])

theorem leafRead {name : String} (word : W.IsWord name) (stops : StopsAt W.holds rest) :
    readOperand W (n + 1) (name.toList ++ rest) = some (leaf name, rest) := by
  obtain ⟨taken, left⟩ := spanStops word.2 stops
  rw [readOperand, wordInside word rest, taken, left, String.ofList_toList]

theorem operandsRead (W : WordClass) (n : Nat) : Reads W n := by
  induction n using Nat.strongRecOn with
  | ind n ih =>
    intro x lawful length rest stops
    have positive := operandLength lawful
    obtain ⟨m, rfl⟩ : ∃ m, n = m + 1 := ⟨n - 1, by omega⟩
    cases named : x.name? with
    | some name =>
      cases lawful with
      | leaf word => exact leafRead word stops
      | _ => nomatch named
    | none =>
      rw [operandApplied named] at length ⊢
      simp only [List.length_cons, List.length_append, List.length_nil] at length
      have inner : readApplication W m (x.text.toList ++ ')' :: rest) = some (x, ')' :: rest) :=
        applicationRead (fun k below => ih k (by omega)) lawful named (by omega)
      rw [List.cons_append, List.append_assoc, readOperand, expectSame]
      simp [inner, expectSame]

theorem applicationOpens (applied : x.name? = none) : ∃ cs, x.text.toList = '(' :: cs := by
  cases x with
  | leaf name => nomatch applied
  | _ => exact ⟨_, by simp [text]; rfl⟩

theorem parsedText (lawful : x.Lawful W) : parseShort W x.text = some x := by
  cases named : x.name? with
  | some name =>
    cases lawful with
    | @leaf name word =>
      have read : readOperand W name.toList.length (name.toList ++ []) = some (leaf name, []) :=
        operandsRead W _ (leaf name) (.leaf word) (Nat.le_refl _) [] nofun
      have inside := wordInside word []
      rw [List.append_nil] at read inside
      show parseShort W name = _
      rw [parseShort, inside, read]
      rfl
    | _ => nomatch named
  | none =>
    obtain ⟨cs, split⟩ := applicationOpens named
    have read : readApplication W x.text.toList.length (x.text.toList ++ []) = some (x, []) :=
      applicationRead (fun m _ => operandsRead W m) lawful named (Nat.le_refl _)
    have opens : expect '(' x.text.toList = some cs := by
      rw [split]
      exact expectSame '('
    rw [List.append_nil] at read
    rw [parseShort, opens, read]
    rfl

end Recovered

theorem treesRecovered (W : WordClass) {p : Policy} {w : World} (reachable : w.Reachable p) {n : Nat} {a : Arena}
    (here : w.session.arenas[n]? = some a) {x : ShortTree} (lawful : x.Lawful W) :
    ∃ e b text, x.build.run a = .ok e b ∧ b.render e.ref = .ok text ∧ parseShort W text = some x ∧
      ∀ y, y.Lawful W → y ≠ x → ∀ (v : World) (m : Nat) (d : Arena), v.Reachable p → v.session.arenas[m]? = some d →
        ∀ f g, y.build.run d = .ok f g → g.render f.ref ≠ .ok text := by
  obtain ⟨e, b, ran, _, _, _, rendered⟩ := x.makes (reachable.regular here).settled.quiet
  refine ⟨e, b, x.text, ran, rendered, parsedText lawful, ?_⟩
  intro y lawful' other v m d reachable' here' f g ran' same
  obtain ⟨f', g', again, _, _, _, rendered'⟩ := y.makes (reachable'.regular here').settled.quiet
  rw [ran'] at again
  cases again
  rw [same] at rendered'
  injection rendered' with texts
  have read := parsedText lawful'
  rw [← texts, parsedText lawful] at read
  exact other (Option.some.inj read).symm

theorem nestedTreeRecovered :
    let x : ShortTree := .call (.unary "-" (.leaf "f")) [.leaf "x", .index (.leaf "y") []]
    ∃ e b, x.build.run (.new 0 .c) = .ok e b ∧ b.render e.ref = .ok "(((-f))(x,((y))))" ∧
      parseShort .identifiers "(((-f))(x,((y))))" = some x := by
  intro x
  have f : ShortTree.Lawful .identifiers (.leaf "f") := .leaf (.ofAll (by decide) (by decide))
  have y : ShortTree.Lawful .identifiers (.leaf "y") := .leaf (.ofAll (by decide) (by decide))
  have args : ∀ t ∈ [ShortTree.leaf "x", .index (.leaf "y") []], t.Lawful .identifiers :=
    List.forall_mem_cons.mpr ⟨.leaf (.ofAll (by decide) (by decide)), List.forall_mem_singleton.mpr (.index y nofun)⟩
  have lawful : x.Lawful .identifiers := .call (.unary (.ofAll (by decide) (by decide)) f) args
  obtain ⟨e, b, text, ran, rendered, read, _⟩ :=
    treesRecovered .identifiers (World.Reachable.start.grow (p := .strict) .c) (n := 0) rfl lawful
  have same : text = "(((-f))(x,((y))))" := by
    cases ran
    cases rendered
    rfl
  subst same
  exact ⟨e, b, ran, rendered, read⟩

end CSource
