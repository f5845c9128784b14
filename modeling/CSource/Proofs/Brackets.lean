import CSource.Proofs.Placing
import CSource.Text.Continuation

/-!
Brackets of three kinds. Read from the left, a text leaves some brackets to be closed; a balanced text leaves those that
it has found, so it can stand anywhere in another text. In the pieces of a node the children count for nothing, because
their texts are balanced on their own.
-/

namespace CSource

open Render Text

def closerOf : Char → Option Char
  | '(' => some ')'
  | '[' => some ']'
  | '\x7b' => some '\x7d'
  | _ => none

def isCloser (c : Char) : Bool := c == ')' || c == ']' || c == '\x7d'

def owedBehind (owed : List Char) (c : Char) : Option (List Char) :=
  match closerOf c with
  | some d => some (d :: owed)
  | none =>
    if isCloser c then
      match owed with
      | d :: rest => if c = d then some rest else none
      | [] => none
    else some owed

def owedAfter (owed cs : List Char) : Option (List Char) := cs.foldlM owedBehind owed

/-- Every bracket is closed by one of its kind, the innermost first, and none is closed that is not open. -/
def Balanced (text : String) : Prop := owedAfter [] text.toList = some []

instance (text : String) : Decidable (Balanced text) := inferInstanceAs (Decidable (_ = _))

section Texts

variable {c d : Char} {cs ds owed left base : List Char} {s t : String}

theorem owedCons : owedAfter owed (c :: cs) = (owedBehind owed c).bind (owedAfter · cs) := List.foldlM_cons

theorem owedAppend : owedAfter owed (cs ++ ds) = (owedAfter owed cs).bind (owedAfter · ds) := List.foldlM_append

theorem owedFramed (behind : owedBehind owed c = some left) : owedBehind (owed ++ base) c = some (left ++ base) := by
  unfold owedBehind at behind ⊢
  cases opens : closerOf c with
  | some d =>
    rw [opens] at behind
    cases behind
    rfl
  | none =>
    simp only [opens] at behind ⊢
    split_ifs at behind ⊢
    · cases owed with
      | nil => contradiction
      | cons d rest =>
        simp only [List.cons_append] at behind ⊢
        split_ifs at behind ⊢
        cases behind
        rfl
    · cases behind
      rfl

theorem owedFrame (after : owedAfter owed cs = some left) : owedAfter (owed ++ base) cs = some (left ++ base) := by
  induction cs generalizing owed with
  | nil =>
    cases after
    rfl
  | cons c cs ih =>
    obtain ⟨mid, first, rest⟩ := Option.bind_eq_some_iff.mp after
    exact Option.bind_eq_some_iff.mpr ⟨mid ++ base, owedFramed first, ih rest⟩

theorem owedEnclosed (pair : closerOf c = some d) (inside : ∀ owed, owedAfter owed cs = some owed) :
    owedAfter owed (c :: (cs ++ d :: ds)) = owedAfter owed ds := by
  have opens : owedBehind owed c = some (d :: owed) := by simp [owedBehind, pair]
  have closes : owedBehind (d :: owed) d = some owed := by
    unfold closerOf at pair
    split at pair <;> cases pair <;> rfl
  rw [owedCons, opens, Option.bind_some, owedAppend, inside, Option.bind_some, owedCons, closes, Option.bind_some]

theorem balancedIff : Balanced s ↔ ∀ owed, owedAfter owed s.toList = some owed :=
  ⟨fun balanced _ => owedFrame balanced, fun every => every []⟩

theorem Balanced.append (first : Balanced s) (second : Balanced t) : Balanced (s ++ t) := by
  refine balancedIff.mpr fun owed => ?_
  rw [String.toList_append, owedAppend, balancedIff.mp first owed]
  exact balancedIff.mp second owed

theorem Balanced.joined {separator : String} {texts : List String} (plain : Balanced separator)
    (each : ∀ t ∈ texts, Balanced t) : Balanced (separator.intercalate texts) := by
  induction texts with
  | nil => rfl
  | cons t texts ih =>
    obtain ⟨first, others⟩ := List.forall_mem_cons.mp each
    cases texts with
    | nil => simpa using first
    | cons u texts =>
      rw [String.intercalate_cons_cons]
      exact (first.append plain).append (ih others)

theorem Balanced.named {name : QualName} (each : ∀ segment ∈ name.segments, Balanced segment) : Balanced name.text :=
  .joined (by decide) each

theorem owedContinued : owedAfter owed (continueChars cs) = owedAfter owed cs := by
  induction cs generalizing owed with
  | nil => rfl
  | cons c cs ih =>
    have rest : (owedAfter · (continueChars cs)) = (owedAfter · cs) := funext fun _ => ih
    by_cases newline : c = '\n'
    · subst newline
      exact ih
    · have shape : continueChars (c :: cs) = c :: continueChars cs := by simp [continueChars, continueChar, newline]
      rw [shape, owedCons, owedCons, rest]

theorem Balanced.continuedIf (balanced : Balanced s) (continues : Bool) : Balanced (continuedIf continues s) := by
  cases continues with
  | false => exact balanced
  | true =>
    refine Eq.trans ?_ balanced
    simpa [CSource.continuedIf, continueLines] using owedContinued

theorem Balanced.commented {a : Arena} {r : NodeRef} (balanced : Balanced s)
    (remarks : ∀ c, a.commentsOf r = some c → ∀ t, c.before = some t ∨ c.after = some t → Balanced t) :
    Balanced (a.commented r s) := by
  have block (comment : Option String) (told : ∀ t, comment = some t → Balanced t) :
      Balanced (commentText comment) := by
    cases comment with
    | none => decide
    | some t => exact .append (.append (s := "/* ") (by decide) (told t rfl)) (by decide)
  unfold Arena.commented
  cases found : a.commentsOf r with
  | none => exact balanced
  | some c =>
    exact ((block _ fun t same => remarks c found t (.inl same)).append balanced).append
      (block _ fun t same => remarks c found t (.inr same))

end Texts

namespace Pieces

def codes (ps : Pieces) : List Char :=
  ps.flatMap fun
    | .code text => text.toList
    | _ => []

/-- The node opens and closes its own brackets around whole children. -/
def Level (ps : Pieces) : Prop := ∀ owed, owedAfter owed ps.codes = some owed

variable {ps qs : Pieces} {text : String} {owed : List Char}

theorem codesCode : codes (.code text :: ps) = text.toList ++ codes ps := rfl

theorem codesAppend : codes (ps ++ qs) = codes ps ++ codes qs := List.flatMap_append

@[simp] theorem levelNil : Level [] := fun _ => rfl

@[simp] theorem levelChild (r : NodeRef) : Level (.child r :: ps) ↔ Level ps := .rfl

@[simp] theorem levelFault (cause : Misuse) : Level (.fault cause :: ps) ↔ Level ps := .rfl

@[simp] theorem levelAppend (first : Level ps) : Level (ps ++ qs) ↔ Level qs := by
  simp [Level, codesAppend, owedAppend, first _]

@[simp] theorem levelCode (balanced : Balanced text) : Level (.code text :: ps) ↔ Level ps := by
  simp [Level, codesCode, owedAppend, balancedIff.mp balanced]

@[simp] theorem levelOfText : Level (ofText text) ↔ Balanced text := by
  simp [Level, ofText, codes, balancedIff]

@[simp] theorem levelOfHandle {c : Category} (h : Handle c) : Level (ofHandle h) := levelNil

@[simp] theorem levelOfName {name : Except Misuse QualName}
    (each : ∀ n, name = .ok n → ∀ segment ∈ n.segments, Balanced segment) : Level (ofName name) := by
  cases name with
  | error cause => exact levelNil
  | ok n => exact levelOfText.mpr (.named (each n rfl))

theorem levelEnclosed {before behind : String} {c d : Char} (opens : before.toList = [c]) (closes : behind.toList = [d])
    (pair : closerOf c = some d) (inside : Level ps) : Level (.code before :: ps ++ [.code behind]) := by
  intro owed
  have shape : codes (.code before :: ps ++ [.code behind]) = c :: (codes ps ++ d :: []) := by
    rw [codesAppend, codesCode, opens]
    simp [codes, closes]
  rw [shape, owedEnclosed pair inside]
  rfl

@[simp] theorem levelInParens (inside : Level ps) : Level (inParens ps) := levelEnclosed rfl rfl rfl inside

@[simp] theorem levelInBrackets (inside : Level ps) : Level (inBrackets ps) := levelEnclosed rfl rfl rfl inside

@[simp] theorem levelInBraces (inside : Level ps) : Level (inBraces ps) := levelEnclosed rfl rfl rfl inside

@[simp] theorem levelFlatMap {α : Type} {f : α → Pieces} {xs : List α} (each : ∀ x ∈ xs, Level (f x)) :
    Level (xs.flatMap f) := by
  induction xs with
  | nil => exact levelNil
  | cons x xs ih =>
    obtain ⟨first, others⟩ := List.forall_mem_cons.mp each
    exact (levelAppend first).mpr (ih others)

@[simp] theorem levelSeparated {separator : String} {items : List Pieces} (plain : Balanced separator)
    (each : ∀ item ∈ items, Level item) : Level (separated separator items) := by
  induction items with
  | nil => exact levelNil
  | cons item items ih =>
    obtain ⟨first, others⟩ := List.forall_mem_cons.mp each
    cases items with
    | nil => exact first
    | cons next rest => exact (levelAppend first).mpr ((levelCode plain).mpr (ih others))

theorem levelMapped {α : Type} {f : α → Pieces} {xs : List α} {separator : String} (plain : Balanced separator)
    (each : ∀ x ∈ xs, Level (f x)) : Level (separated separator (xs.map f)) :=
  levelSeparated plain (List.forall_mem_map.mpr each)

@[simp] theorem levelCommaHandles {c : Category} (hs : List (Handle c)) : Level (commaHandles hs) :=
  levelMapped (by decide) fun h _ => levelOfHandle h

@[simp] theorem levelFlagged {flags : List (Bool × String)} (each : ∀ flag ∈ flags, Balanced flag.2) :
    Level (flagged flags) := by
  unfold flagged
  induction flags with
  | nil => exact levelNil
  | cons flag flags ih =>
    obtain ⟨first, others⟩ := List.forall_mem_cons.mp each
    cases raised : flag.1 <;> simp [raised, first, ih others]

@[simp] theorem levelVariadicMark (hasParams variadic : Bool) : Level (variadicMark hasParams variadic) := by
  unfold variadicMark
  split_ifs <;> simp +decide

@[simp] theorem levelParams {c : Category} (hs : List (Handle c)) (variadic : Bool) : Level (params hs variadic) :=
  levelInParens ((levelAppend (levelCommaHandles hs)).mpr (levelVariadicMark _ _))

@[simp] theorem levelOption {α : Type} {f : α → Pieces} {x : Option α} (each : ∀ y, x = some y → Level (f y)) :
    Level (ofOption f x) := by
  cases x with
  | none => exact levelNil
  | some y => exact each y rfl

end Pieces

section Spelled

variable {a : Arena} {ps : Pieces} {text : String} {owed : List Char}

theorem Arena.Spells.owing (spelled : a.Spells ps text)
    (inner : ∀ k, .child k ∈ ps → ∀ t, a.render k = .ok t → Balanced t) :
    owedAfter owed text.toList = owedAfter owed ps.codes := by
  induction spelled generalizing owed with
  | nil => rfl
  | code s spelled ih =>
    have rest : (owedAfter · _) = (owedAfter · _) :=
      funext fun _ => ih fun k mem => inner k (List.mem_cons_of_mem _ mem)
    rw [String.toList_append, Pieces.codesCode, owedAppend, owedAppend, rest]
  | child written spelled ih =>
    have first := balancedIff.mp (inner _ (List.mem_cons_self ..) _ written)
    rw [String.toList_append, owedAppend, first, Option.bind_some]
    exact ih fun k mem => inner k (List.mem_cons_of_mem _ mem)

theorem Arena.Spells.balanced (spelled : a.Spells ps text) (level : ps.Level)
    (inner : ∀ k, .child k ∈ ps → ∀ t, a.render k = .ok t → Balanced t) : Balanced text :=
  (spelled.owing inner).trans (level [])

end Spelled

end CSource
