import CSource.Proofs.Growth
import Mathlib.Logic.Relation

/-!
What can happen to an arena. Every call is a sequence of four kinds of change: a node is stored, a shared type is
stored and recorded, a stored node grows, a comment is set. A change says what was known of each reference that it
stores: it was given to the call, it was stored already, or the arena has its node.
-/

namespace CSource

inductive Table where
  | raw
  | pointer
  | reference
  | array
  | named
  deriving DecidableEq, Repr

namespace Table

def Key : Table → Type
  | raw => String
  | pointer | reference => TypeRef
  | array => TypeRef × List ExprRef
  | named => DeclRef

instance : (t : Table) → BEq t.Key
  | raw => inferInstanceAs (BEq String)
  | pointer | reference => inferInstanceAs (BEq TypeRef)
  | array => inferInstanceAs (BEq (TypeRef × List ExprRef))
  | named => inferInstanceAs (BEq DeclRef)

instance : (t : Table) → LawfulBEq t.Key
  | raw => inferInstanceAs (LawfulBEq String)
  | pointer | reference => inferInstanceAs (LawfulBEq TypeRef)
  | array => inferInstanceAs (LawfulBEq (TypeRef × List ExprRef))
  | named => inferInstanceAs (LawfulBEq DeclRef)

def interning : (t : Table) → Interning t.Key
  | raw => .raw
  | pointer => .pointer
  | reference => .reference
  | array => .array
  | named => .named

def entries (t : Table) (a : Arena) : List (t.Key × TypeRef) := t.interning.entries a.interned

/-- The arena in which the type of a new key has been stored and recorded. -/
def extend (t : Table) (key : t.Key) (a : Arena) : Arena :=
  { a.push .type (t.interning.node key) with
    interned := t.interning.record key (a.nextHandle .type) a.interned }

def entrySlots (t : Table) (e : t.Key × TypeRef) : List Slot := e.2.plain :: (t.interning.node e.1).slots

end Table

def Slot.Own (s : Slot) (a : Arena) : Prop := s.ref.arena = a.number

namespace Arena

/-- The arena keeps the slot's promise. A member scope counts only if its aggregate is the arena's own. -/
structure Has (a : Arena) (s : Slot) : Prop where
  own : s.Own a
  node : ∃ n, (a.nodes s.ref.category)[s.ref.index]? = some n ∧ s.shape.accepts _ n = true ∧
    ∀ p, Node.parent? _ n = some p → p.arena = a.number

inductive Stores (a : Arena) (s : Slot) : Prop where
  | node {c : Category} {i : Nat} {n : Node c} (found : (a.nodes c)[i]? = some n) (mem : s ∈ Node.slots c n)
  | table {t : Table} {e : t.Key × TypeRef} (found : e ∈ t.entries a) (mem : s ∈ t.entrySlots e)
  | comment {e : NodeRef × Comments} (found : e ∈ a.comments) (same : s = ⟨e.1, .any⟩)

end Arena

/-- Where a reference that a call stores or hands out comes from. -/
inductive Known (given : Slot → Prop) (a : Arena) (s : Slot) : Prop where
  | given (h : given s)
  | stored (h : a.Stores s)
  | has (h : a.Has s)

def DeclNode.forwarded : DeclNode → List Slot
  | aggregate ty true => [ty.as .aggregate]
  | enumeration ty true => [ty.as .enumeration]
  | _ => []

def Node.forwarded : (c : Category) → Node c → List Slot
  | .decl, n => DeclNode.forwarded n
  | _, _ => []

/-- The slot is the aggregate of a member scope that was given to the call. -/
def Inherited (given : Slot → Prop) (a : Arena) (s : Slot) : Prop :=
  ∃ (scope : ScopeRef) (n : ScopeNode),
    given (scope.as (.place .member)) ∧ a.node scope = .ok n ∧ s ∈ n.kind.slots

/-- What is established of a node when it is stored. The aggregate of a new member scope and the type of a
forward declaration are stored as they come. -/
structure Born (given : Slot → Prop) (a : Arena) {c : Category} (n : Node c) : Prop where
  known : ∀ s ∈ Node.slots c n, Known given a s
  own : c = .scope ∨ ∀ s ∈ Node.slots c n, s.Own a ∨ s ∈ Node.forwarded c n ∨ Inherited given a s
  initial : Node.Initial c n
  allowed : ∀ f ∈ Node.features c n, a.dialect = f.dialect

structure Grown (given : Slot → Prop) (a : Arena) {c : Category} (old new : Node c) : Prop where
  grows : Node.Grows c old new
  fresh : ∀ s ∈ Node.slots c new, s ∈ Node.slots c old ∨ (s.Own a ∧ Known given a s)
  allowed : ∀ f ∈ Node.features c new, f ∈ Node.features c old ∨ a.dialect = f.dialect

inductive Change (given : Slot → Prop) (a : Arena) : Arena → Prop where
  | alloc {c : Category} (n : Node c) (born : Born given a n) : Change given a (a.push c n)
  | intern (t : Table) (key : t.Key) (miss : (t.entries a).lookup key = none)
      (known : ∀ s ∈ (t.interning.node key).slots, Known given a s ∧ s.Own a)
      (allowed : ∀ f ∈ (t.interning.node key).features, a.dialect = f.dialect) : Change given a (t.extend key a)
  | grow {c : Category} (h : Handle c) (old new : Node c) (found : a.node h = .ok old)
      (grown : Grown given a old new) : Change given a (a.replace h new)
  | comment (r : NodeRef) (f : Comments → Comments) (own : r.arena = a.number) (known : Known given a ⟨r, .any⟩) :
      Change given a (a.setComments r f)

inductive Extends (given : Slot → Prop) (a : Arena) : Arena → Prop where
  | refl : Extends given a a
  | push {b : Arena} {c : Category} (before : Extends given a b) (n : Node c) (born : Born given b n) :
      Extends given a (b.push c n)

def Changes (given : Slot → Prop) : Arena → Arena → Prop := Relation.ReflTransGen (Change given)

namespace Arena

theorem nodeIff {a : Arena} {c : Category} {h : Handle c} {n : Node c} :
    a.node h = .ok n ↔ h.arena = a.number ∧ (a.nodes c)[h.index]? = some n := by
  unfold node owns
  by_cases own : h.arena = a.number
  · cases (a.nodes c)[h.index]? <;> simp [own]
  · simp [own]

theorem nodeForeign {a : Arena} {c : Category} {h : Handle c} (foreign : h.arena ≠ a.number) :
    a.node h = .error (.foreignHandle c) := by
  simp [node, owns, foreign]

theorem nodeRefused {a : Arena} {c : Category} {h : Handle c} {cause : Misuse} (refused : a.node h = .error cause) :
    (h.arena ≠ a.number ∧ cause = .foreignHandle c) ∨ (h.arena = a.number ∧ cause = .emptyHandle c) := by
  by_cases own : h.arena = a.number
  · simp only [node, owns, own, beq_self_eq_true, if_true] at refused
    split at refused <;> cases refused
    exact .inr ⟨own, rfl⟩
  · cases (nodeForeign own).symm.trans refused
    exact .inl ⟨own, rfl⟩

@[simp] theorem numberPush (a : Arena) (c : Category) (n : Node c) : (a.push c n).number = a.number :=
  numberSetNodes ..

@[simp] theorem dialectPush (a : Arena) (c : Category) (n : Node c) : (a.push c n).dialect = a.dialect :=
  dialectSetNodes ..

@[simp] theorem internedPush (a : Arena) (c : Category) (n : Node c) : (a.push c n).interned = a.interned :=
  internedSetNodes ..

@[simp] theorem commentsPush (a : Arena) (c : Category) (n : Node c) : (a.push c n).comments = a.comments :=
  commentsSetNodes ..

@[simp] theorem nodesPush (a : Arena) (c : Category) (n : Node c) :
    (a.push c n).nodes c = (a.nodes c).push n :=
  nodesSetNodes ..

theorem nodesPushOther (a : Arena) {c d : Category} (ne : c ≠ d) (n : Node c) :
    (a.push c n).nodes d = a.nodes d :=
  nodesSetNodesOther a ne _

@[simp] theorem numberReplace (a : Arena) {c : Category} (h : Handle c) (n : Node c) :
    (a.replace h n).number = a.number :=
  numberSetNodes ..

@[simp] theorem dialectReplace (a : Arena) {c : Category} (h : Handle c) (n : Node c) :
    (a.replace h n).dialect = a.dialect :=
  dialectSetNodes ..

@[simp] theorem internedReplace (a : Arena) {c : Category} (h : Handle c) (n : Node c) :
    (a.replace h n).interned = a.interned :=
  internedSetNodes ..

@[simp] theorem commentsReplace (a : Arena) {c : Category} (h : Handle c) (n : Node c) :
    (a.replace h n).comments = a.comments :=
  commentsSetNodes ..

@[simp] theorem nodesReplace (a : Arena) {c : Category} (h : Handle c) (n : Node c) :
    (a.replace h n).nodes c = (a.nodes c).setIfInBounds h.index n :=
  nodesSetNodes ..

theorem nodesReplaceOther (a : Arena) {c d : Category} (ne : c ≠ d) (h : Handle c) (n : Node c) :
    (a.replace h n).nodes d = a.nodes d :=
  nodesSetNodesOther a ne _

theorem pushKeeps {a : Arena} {c d : Category} {i : Nat} {m : Node d} (n : Node c)
    (found : (a.nodes d)[i]? = some m) : ((a.push c n).nodes d)[i]? = some m := by
  by_cases same : c = d
  · subst d
    have inside := (Array.getElem?_eq_some_iff.mp found).1
    rw [nodesPush, Array.getElem?_push_lt inside]
    exact (Array.getElem?_eq_getElem inside).symm.trans found
  · rwa [nodesPushOther a same]

theorem nodePushKeeps {a : Arena} {c d : Category} {h : Handle d} {m : Node d} (n : Node c)
    (found : a.node h = .ok m) : (a.push c n).node h = .ok m := by
  rw [nodeIff] at found ⊢
  exact ⟨by simpa using found.1, pushKeeps n found.2⟩

theorem pushedNode (a : Arena) (c : Category) (n : Node c) :
    ((a.push c n).nodes c)[(a.nodes c).size]? = some n := by
  simp

theorem nodePushed {a : Arena} {c : Category} {n : Node c} : (a.push c n).node (a.nextHandle c) = .ok n :=
  nodeIff.mpr ⟨by simp [nextHandle], by simp [nextHandle]⟩

theorem nodePushOther {a : Arena} {c d : Category} {n : Node c} {h : Handle d}
    (other : h.ref ≠ (a.nextHandle c).ref) : (a.push c n).node h = a.node h := by
  unfold node owns
  rw [numberPush]
  split
  · rename_i own
    by_cases same : c = d
    · subst same
      have apart : h.index ≠ (a.nodes c).size := by
        intro hit
        exact other (by simpa [Handle.ref, nextHandle, hit] using own)
      rw [nodesPush, Array.getElem?_push, if_neg apart]
    · rw [nodesPushOther a same]
  · rfl

theorem nodeBeyond {a : Arena} {c : Category} {h : Handle c} (own : h.arena = a.number)
    (beyond : (a.nodes c).size ≤ h.index) : a.node h = .error (.emptyHandle c) := by
  have none : (a.nodes c)[h.index]? = none := Array.getElem?_eq_none beyond
  simp [node, owns, own, none]

theorem replacedNode {a : Arena} {c : Category} {h : Handle c} {old : Node c} (here : a.node h = .ok old)
    (n : Node c) : (a.replace h n).node h = .ok n := by
  have inside := (Array.getElem?_eq_some_iff.mp (nodeIff.mp here).2).1
  rw [nodeIff]
  exact ⟨by simpa using (nodeIff.mp here).1, by simp [inside]⟩

theorem nodeReplaceOther {a : Arena} {c d : Category} {h : Handle c} {g : Handle d} {n : Node c}
    (own : h.arena = a.number) (other : g.ref ≠ h.ref) : (a.replace h n).node g = a.node g := by
  unfold node owns
  rw [numberReplace]
  split
  · rename_i owned
    by_cases same : c = d
    · subst same
      have apart : h.index ≠ g.index := by
        intro hit
        exact other (by simpa [Handle.ref, hit, own] using owned)
      rw [nodesReplace, Array.getElem?_setIfInBounds_ne apart]
    · rw [nodesReplaceOther a same]
  · rfl

theorem pushForall {a : Arena} {c : Category} {n : Node c} {P : (d : Category) → Nat → Node d → Prop}
    (old : ∀ d i m, (a.nodes d)[i]? = some m → P d i m) (new : P c (a.nodes c).size n) :
    ∀ d i m, ((a.push c n).nodes d)[i]? = some m → P d i m := by
  intro d i m found
  by_cases same : c = d
  · subst d
    rw [nodesPush, Array.getElem?_push] at found
    split at found
    · rename_i last
      cases Option.some.inj found
      exact last ▸ new
    · exact old c i m found
  · rw [nodesPushOther a same] at found
    exact old d i m found

theorem replaceForall {a : Arena} {c : Category} {h : Handle c} {n : Node c}
    {P : (d : Category) → Nat → Node d → Prop}
    (old : ∀ d i m, (a.nodes d)[i]? = some m → P d i m) (new : P c h.index n) :
    ∀ d i m, ((a.replace h n).nodes d)[i]? = some m → P d i m := by
  intro d i m found
  by_cases same : c = d
  · subst d
    rw [nodesReplace, Array.getElem?_setIfInBounds] at found
    split at found
    · rename_i here
      split at found <;> try contradiction
      cases Option.some.inj found
      exact here ▸ new
    · exact old c i m found
  · rw [nodesReplaceOther a same] at found
    exact old d i m found

theorem replaceKeeps {a : Arena} {c d : Category} {h : Handle c} {old new : Node c} {i : Nat} {m : Node d}
    (here : a.node h = .ok old) (found : (a.nodes d)[i]? = some m) :
    ((a.replace h new).nodes d)[i]? = some m ∨
      ∃ same : c = d, i = h.index ∧ m = same ▸ old ∧ ((a.replace h new).nodes d)[i]? = some (same ▸ new) := by
  have present := (nodeIff.mp here).2
  by_cases same : c = d
  · subst d
    by_cases hit : h.index = i
    · subst i
      have inside := (Array.getElem?_eq_some_iff.mp found).1
      cases Option.some.inj (found.symm.trans present)
      exact .inr ⟨rfl, rfl, rfl, by simp [inside]⟩
    · exact .inl (by rw [nodesReplace, Array.getElem?_setIfInBounds_ne hit]; exact found)
  · exact .inl (by rw [nodesReplaceOther a same]; exact found)

theorem nodesSetComments (a : Arena) (r : NodeRef) (f : Comments → Comments) (c : Category) :
    (a.setComments r f).nodes c = a.nodes c := by
  cases c <;> rfl

theorem nodeSetComments (a : Arena) (r : NodeRef) (f : Comments → Comments) {c : Category} (h : Handle c) :
    (a.setComments r f).node h = a.node h := by
  unfold node owns
  rw [nodesSetComments]
  rfl

end Arena

namespace Table

theorem nodesExtend (t : Table) (key : t.Key) (a : Arena) (c : Category) :
    (t.extend key a).nodes c = (a.push .type (t.interning.node key)).nodes c := by
  cases c <;> rfl

theorem nodeExtend (t : Table) (key : t.Key) (a : Arena) {c : Category} (h : Handle c) :
    (t.extend key a).node h = (a.push .type (t.interning.node key)).node h := by
  unfold Arena.node Arena.owns
  rw [nodesExtend]
  rfl

@[simp] theorem numberExtend (t : Table) (key : t.Key) (a : Arena) : (t.extend key a).number = a.number :=
  Arena.numberSetNodes ..

@[simp] theorem dialectExtend (t : Table) (key : t.Key) (a : Arena) : (t.extend key a).dialect = a.dialect :=
  Arena.dialectSetNodes ..

@[simp] theorem commentsExtend (t : Table) (key : t.Key) (a : Arena) : (t.extend key a).comments = a.comments :=
  Arena.commentsSetNodes ..

theorem entriesExtend (t : Table) (key : t.Key) (a : Arena) :
    t.entries (t.extend key a) = t.entries a ++ [(key, a.nextHandle .type)] := by
  cases t <;> rfl

theorem entriesExtendOther {t u : Table} (ne : t ≠ u) (key : t.Key) (a : Arena) :
    u.entries (t.extend key a) = u.entries a := by
  cases t <;> cases u <;> first | exact absurd rfl ne | rfl

end Table

namespace Node

def Evolved (c : Category) (old new : Node c) : Prop := new = old ∨ Grows c old new

theorem evolvedAccepts {c : Category} {old new : Node c} (evolved : Evolved c old new) (s : Shape) :
    s.accepts c new = s.accepts c old := by
  rcases evolved with rfl | grows
  · rfl
  · exact growsAccepts grows s

theorem evolvedParent {c : Category} {old new : Node c} (evolved : Evolved c old new) :
    parent? c new = parent? c old := by
  rcases evolved with rfl | grows
  · rfl
  · exact growsParent grows

end Node

namespace Change

variable {given : Slot → Prop} {a b : Arena}

theorem number (h : Change given a b) : b.number = a.number := by
  cases h <;> first | rfl | simp

theorem dialect (h : Change given a b) : b.dialect = a.dialect := by
  cases h <;> first | rfl | simp

theorem keeps (h : Change given a b) {c : Category} {i : Nat} {n : Node c} (found : (a.nodes c)[i]? = some n) :
    ∃ m, (b.nodes c)[i]? = some m ∧ Node.Evolved c n m := by
  cases h with
  | alloc m born => exact ⟨n, Arena.pushKeeps m found, .inl rfl⟩
  | intern t key miss known allowed =>
    exact ⟨n, by rw [Table.nodesExtend]; exact Arena.pushKeeps _ found, .inl rfl⟩
  | grow h old new here grown =>
    rcases Arena.replaceKeeps here found with kept | ⟨rfl, _, rfl, now⟩
    · exact ⟨n, kept, .inl rfl⟩
    · exact ⟨new, now, .inr grown.grows⟩
  | comment r f own known => exact ⟨n, by rw [Arena.nodesSetComments]; exact found, .inl rfl⟩

theorem keepsHas (h : Change given a b) {s : Slot} (has : a.Has s) : b.Has s := by
  obtain ⟨own, n, found, accepted, parent⟩ := has
  obtain ⟨m, now, evolved⟩ := h.keeps found
  refine ⟨own.trans h.number.symm, m, now, ?_, ?_⟩
  · rw [Node.evolvedAccepts evolved, accepted]
  · intro p isParent
    rw [Node.evolvedParent evolved] at isParent
    rw [h.number]
    exact parent p isParent

end Change

theorem Arena.Has.plain {a : Arena} {c : Category} {h : Handle c} {shape : Shape} (has : a.Has (h.as shape)) :
    a.Has h.plain := by
  obtain ⟨own, n, found, _, parent⟩ := has
  exact ⟨own, n, found, Shape.anyAccepts _, parent⟩

theorem Arena.hasPushed {a : Arena} {c : Category} {n : Node c} {shape : Shape} (accepted : shape.accepts c n = true)
    (parent : ∀ p, Node.parent? c n = some p → p.arena = a.number) :
    (a.push c n).Has ((a.nextHandle c).as shape) := by
  refine ⟨by simp [Slot.Own, Handle.as, Handle.ref, Arena.nextHandle], n, a.pushedNode c n, accepted, ?_⟩
  intro p isParent
  rw [numberPush]
  exact parent p isParent

theorem Table.hasExtended {a : Arena} (t : Table) (key : t.Key) : (t.extend key a).Has (a.nextHandle .type).plain := by
  refine ⟨by simp [Slot.Own, Handle.plain, Handle.as, Handle.ref, Arena.nextHandle], t.interning.node key, ?_, rfl,
    nofun⟩
  show ((t.extend key a).nodes .type)[(a.nodes .type).size]? = _
  rw [Table.nodesExtend]
  exact a.pushedNode .type _

theorem Arena.storesPush {a : Arena} {c : Category} (n : Node c) {s : Slot} (stored : a.Stores s) :
    (a.push c n).Stores s := by
  cases stored with
  | node found mem => exact .node (pushKeeps n found) mem
  | @table t e found mem => exact .table (t := t) (e := e) (by simpa [Table.entries] using found) mem
  | comment found same => exact .comment (by simpa using found) same

theorem Known.pair {given : Slot → Prop} {a : Arena} {s t : Slot} (first : a.Has s) (second : a.Has t) :
    ∀ u ∈ [s, t], Known given a u :=
  List.forall_mem_cons.mpr ⟨.has first, List.forall_mem_singleton.mpr (.has second)⟩

namespace Extends

variable {given : Slot → Prop} {a b c : Arena}

theorem trans (first : Extends given a b) (second : Extends given b c) : Extends given a c := by
  induction second with
  | refl => exact first
  | push before n born ih => exact .push ih n born

theorem changes (h : Extends given a b) : Changes given a b := by
  induction h with
  | refl => exact .refl
  | push before n born ih => exact ih.tail (.alloc n born)

theorem number (h : Extends given a b) : b.number = a.number := by
  induction h with
  | refl => rfl
  | push before n born ih => simpa using ih

theorem dialect (h : Extends given a b) : b.dialect = a.dialect := by
  induction h with
  | refl => rfl
  | push before n born ih => simpa using ih

theorem keepsNode (h : Extends given a b) {c : Category} {r : Handle c} {n : Node c} (found : a.node r = .ok n) :
    b.node r = .ok n := by
  induction h with
  | refl => exact found
  | push before m born ih => exact Arena.nodePushKeeps m ih

theorem keepsKnown (h : Extends given a b) {s : Slot} (known : Known given a s) : Known given b s := by
  induction h with
  | refl => exact known
  | push before n born ih =>
    cases ih with
    | given h => exact .given h
    | stored h => exact .stored (Arena.storesPush n h)
    | has h => exact .has ((Change.alloc n born).keepsHas h)

theorem keepsEach (h : Extends given a b) {ss : List Slot} (known : ∀ s ∈ ss, Known given a s) :
    ∀ s ∈ ss, Known given b s :=
  fun s mem => h.keepsKnown (known s mem)

theorem keepsHas (h : Extends given a b) {s : Slot} (has : a.Has s) : b.Has s := by
  induction h with
  | refl => exact has
  | push before n born ih => exact (Change.alloc n born).keepsHas ih

theorem keepsOwn (h : Extends given a b) {s : Slot} : s.Own b ↔ s.Own a := by
  rw [Slot.Own, Slot.Own, h.number]

end Extends

namespace Changes

variable {given : Slot → Prop} {a b : Arena}

theorem number (h : Changes given a b) : b.number = a.number := by
  induction h with
  | refl => rfl
  | tail before step ih => rw [step.number, ih]

theorem keepsPresent (h : Changes given a b) {c : Category} {r : Handle c} (present : ∃ n, a.node r = .ok n) :
    ∃ n, b.node r = .ok n := by
  induction h with
  | refl => exact present
  | tail before step ih =>
    obtain ⟨n, found⟩ := ih
    have here := Arena.nodeIff.mp found
    obtain ⟨m, now, _⟩ := step.keeps here.2
    exact ⟨m, Arena.nodeIff.mpr ⟨here.1.trans step.number.symm, now⟩⟩

theorem keepsHas (h : Changes given a b) {s : Slot} (has : a.Has s) : b.Has s := by
  induction h with
  | refl => exact has
  | tail before step ih => exact step.keepsHas ih

end Changes

section Storage

variable {given : Slot → Prop} {a b : Arena}

theorem upsertKeys {α β : Type} [DecidableEq α] {key : α} {fresh : β} {f : β → β} {l : List (α × β)} {e : α × β}
    (mem : e ∈ Arena.upsert key fresh f l) : e.1 = key ∨ ∃ old ∈ l, old.1 = e.1 := by
  induction l with
  | nil =>
    cases List.mem_singleton.mp mem
    exact .inl rfl
  | cons head tail ih =>
    unfold Arena.upsert at mem
    split at mem
    · rename_i same
      rcases List.mem_cons.mp mem with rfl | later
      · exact .inl same
      · exact .inr ⟨e, List.mem_cons_of_mem _ later, rfl⟩
    · rcases List.mem_cons.mp mem with rfl | later
      · exact .inr ⟨_, List.mem_cons_self .., rfl⟩
      · rcases ih later with same | ⟨old, older, same⟩
        · exact .inl same
        · exact .inr ⟨old, List.mem_cons_of_mem _ older, same⟩

theorem pushedSlots {c d : Category} {n : Node c} {m : Node d} {i : Nat} {s : Slot}
    (known : ∀ s ∈ Node.slots c n, Known given a s) (found : ((a.push c n).nodes d)[i]? = some m)
    (mem : s ∈ Node.slots d m) : a.Stores s ∨ Known given a s := by
  have each := Arena.pushForall (a := a) (n := n)
    (P := fun d _ m => ∀ s ∈ Node.slots d m, a.Stores s ∨ Known given a s)
    (fun d i m found s mem => .inl (.node found mem)) (fun s mem => .inr (known s mem))
  exact each d i m found s mem

theorem Change.stores (h : Change given a b) {s : Slot} (stored : b.Stores s) :
    a.Stores s ∨ Known given a s ∨ b.Has s := by
  cases h with
  | alloc n born =>
    cases stored with
    | node found mem => exact (pushedSlots born.known found mem).imp_right .inl
    | table found mem => exact .inl (.table (by simpa [Table.entries] using found) mem)
    | comment found same => exact .inl (.comment (by simpa using found) same)
  | intern t key miss known allowed =>
    cases stored with
    | node found mem =>
      rw [Table.nodesExtend] at found
      exact (pushedSlots (c := .type) (fun s mem => (known s mem).1) found mem).imp_right .inl
    | @table u e found mem =>
      by_cases same : t = u
      · subst same
        rw [Table.entriesExtend] at found
        rcases List.mem_append.mp found with old | new
        · exact .inl (.table old mem)
        · cases List.mem_singleton.mp new
          rcases List.mem_cons.mp mem with rfl | inner
          · exact .inr (.inr (t.hasExtended key))
          · exact .inr (.inl (known s inner).1)
      · rw [Table.entriesExtendOther same] at found
        exact .inl (.table found mem)
    | comment found same => exact .inl (.comment (by simpa using found) same)
  | grow h old new here grown =>
    cases stored with
    | @node d i m found mem =>
      have each := Arena.replaceForall (a := a) (h := h) (n := new)
        (P := fun d _ m => ∀ s ∈ Node.slots d m, a.Stores s ∨ Known given a s ∨ (a.replace h new).Has s)
        (fun d i m found s mem => .inl (.node found mem)) fun s mem => by
          rcases grown.fresh s mem with before | ⟨_, known⟩
          · exact .inl (.node (Arena.nodeIff.mp here).2 before)
          · exact .inr (.inl known)
      exact each d i m found s mem
    | table found mem => exact .inl (.table (by simpa [Table.entries] using found) mem)
    | comment found same => exact .inl (.comment (by simpa using found) same)
  | comment r f own known =>
    cases stored with
    | node found mem =>
      rw [Arena.nodesSetComments] at found
      exact .inl (.node found mem)
    | table found mem => exact .inl (.table found mem)
    | comment found same =>
      rcases upsertKeys found with new | ⟨old, older, key⟩
      · exact .inr (.inl (by rwa [same, new]))
      · exact .inl (.comment older (by rw [same, key]))

theorem Changes.stores (h : Changes given a b) {s : Slot} (stored : b.Stores s) :
    a.Stores s ∨ given s ∨ b.Has s := by
  induction h with
  | refl => exact .inl stored
  | tail before step ih =>
    rcases step.stores stored with older | known | has
    · exact (ih older).imp_right (Or.imp_right step.keepsHas)
    · cases known with
      | given issued => exact .inr (.inl issued)
      | stored older => exact (ih older).imp_right (Or.imp_right step.keepsHas)
      | has has => exact .inr (.inr (step.keepsHas has))
    · exact .inr (.inr has)

theorem Changes.known (h : Changes given a b) {s : Slot} (known : Known given b s) :
    a.Stores s ∨ given s ∨ b.Has s := by
  cases known with
  | given issued => exact .inr (.inl issued)
  | stored stored => exact h.stores stored
  | has has => exact .inr (.inr has)

end Storage

end CSource
