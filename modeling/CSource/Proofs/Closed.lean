import CSource.Proofs.Soundness

/-!
Closed arenas: every stored reference is to a node of the arena and of the shape that its holder relies on, and what
a declaration wraps is older than the declaration. An arena is closed as long as its clients use the handles that it
has issued, as what they were issued. As long as they use no handles of other arenas it is layered: stored references
are to its nodes, if not of these shapes. A declaration has a name if what is wrapped is older and tags are what they
have to be.
-/

namespace CSource

/-- Clients use the handles of the arena itself, and scopes as what they are. -/
def Policy.strict : Policy := ⟨false, false, false⟩

def DeclNode.wrapped? : DeclNode → Option DeclRef
  | splitForward func => some func
  | template _ inner => some inner
  | _ => none

def Node.wrapped? : (c : Category) → Node c → Option DeclRef
  | .decl, n => DeclNode.wrapped? n
  | _, _ => none

structure Tag where
  ty : TypeRef
  shape : Shape
  deriving DecidableEq

def Tag.slot (t : Tag) : Slot := t.ty.as t.shape

def DeclNode.tag? : DeclNode → Option Tag
  | aggregate ty _ => some ⟨ty, .aggregate⟩
  | enumeration ty _ => some ⟨ty, .enumeration⟩
  | typeDef ty | usingType ty => some ⟨ty, .synonym⟩
  | _ => none

def Node.tag? : (c : Category) → Node c → Option Tag
  | .decl, n => DeclNode.tag? n
  | _, _ => none

namespace Arena

def Older (a : Arena) : Prop :=
  ∀ (c : Category) (i : Nat) (n : Node c), (a.nodes c)[i]? = some n →
    ∀ inner, Node.wrapped? c n = some inner → inner.index < i

def Tagged (a : Arena) : Prop :=
  ∀ (c : Category) (i : Nat) (n : Node c), (a.nodes c)[i]? = some n → ∀ t, Node.tag? c n = some t → a.Has t.slot

structure Present (a : Arena) (r : NodeRef) : Prop where
  own : r.arena = a.number
  index : r.index < (a.nodes r.category).size

structure Closed (a : Arena) : Prop where
  stored : ∀ s, a.Stores s → a.Has s
  older : a.Older

/-- Stored references lead to nodes, but perhaps of another shape than their holders rely on. -/
structure Layered (a : Arena) : Prop where
  stored : ∀ s, a.Stores s → a.Present s.ref
  older : a.Older

structure Nameable (a : Arena) : Prop extends a.Layered where
  tagged : a.Tagged

end Arena

variable {p : Policy} {given : Slot → Prop} {a b : Arena}

theorem Arena.Keeps.has {s : Slot} (keeps : a.Keeps .strict s) (own : s.Own a) : a.Has s := by
  obtain ⟨n, found, accepted, parent⟩ := keeps
  refine ⟨own, n, found, accepted ?_, parent rfl⟩
  cases s.shape <;> rfl

theorem Arena.Closed.known (closed : a.Closed) (trusted : Trusted .strict given a) {s : Slot}
    (known : Known given a s) : a.Has s := by
  cases known with
  | given issued => exact (trusted.keeps s issued (trusted.own rfl s issued)).has (trusted.own rfl s issued)
  | stored stored => exact closed.stored s stored
  | has has => exact has

theorem Arena.Has.index {s : Slot} (has : a.Has s) : s.ref.index < (a.nodes s.ref.category).size := by
  obtain ⟨n, found, _⟩ := has.node
  exact (Array.getElem?_eq_some_iff.mp found).1

theorem Node.wrappedSlot {c : Category} {n : Node c} {inner : DeclRef} (wraps : wrapped? c n = some inner) :
    c = .decl ∧ ∃ shape, inner.as shape ∈ slots c n := by
  cases c <;> try contradiction
  refine ⟨rfl, ?_⟩
  cases n <;> try contradiction
  all_goals
    cases Option.some.inj wraps
    exact ⟨_, List.mem_cons_self ..⟩

theorem Node.tagSlot {c : Category} {n : Node c} {t : Tag} (introduces : tag? c n = some t) : t.slot ∈ slots c n := by
  cases c <;> try contradiction
  cases n <;> try contradiction
  all_goals
    cases Option.some.inj introduces
    exact List.mem_singleton_self _

theorem Node.growsWrapped {c : Category} {old new : Node c} (grows : Grows c old new) : wrapped? c new = none := by
  cases c with
  | decl => cases grows <;> rfl
  | _ => rfl

theorem Arena.Closed.new (n : Nat) (d : Dialect) : (Arena.new n d).Closed := by
  refine ⟨fun _ stored => absurd stored Arena.newStores, ?_⟩
  intro c i m found inner wraps
  obtain ⟨_, shape, mem⟩ := Node.wrappedSlot wraps
  exact absurd (.node found mem) Arena.newStores

theorem Change.older (change : Change given a b)
    (known : ∀ s, Known given a s → s.ref.index < (a.nodes s.ref.category).size) (older : a.Older) : b.Older := by
  cases change with
  | alloc n born =>
    refine Arena.pushForall older fun inner wraps => ?_
    obtain ⟨rfl, shape, mem⟩ := Node.wrappedSlot wraps
    exact known _ (born.known _ mem)
  | intern t key miss _ allowed =>
    intro c i n found
    rw [Table.nodesExtend] at found
    exact Arena.pushForall (c := .type) older nofun c i n found
  | grow h old new here grown =>
    refine Arena.replaceForall older fun inner wraps => ?_
    rw [Node.growsWrapped grown.grows] at wraps
    contradiction
  | comment r f own _ =>
    intro c i n found
    rw [Arena.nodesSetComments] at found
    exact older c i n found

theorem Arena.Closed.change (trusted : Trusted .strict given a) (change : Change given a b) (closed : a.Closed) :
    b.Closed := by
  refine ⟨fun s stored => ?_, change.older (fun s known => (closed.known trusted known).index) closed.older⟩
  rcases change.stores stored with older | known | has
  · exact change.keepsHas (closed.stored s older)
  · exact change.keepsHas (closed.known trusted known)
  · exact has

theorem World.Reachable.closed {w : World} (reachable : w.Reachable .strict) :
    ∀ (n : Nat) (a : Arena), w.session.arenas[n]? = some a → a.Closed :=
  reachable.induct Arena.Closed.new fun trusted change closed => closed.change trusted change

theorem Arena.Has.present {s : Slot} (has : a.Has s) : a.Present s.ref := ⟨has.own, has.index⟩

theorem Change.keepsPresent (change : Change given a b) {r : NodeRef} (present : a.Present r) : b.Present r := by
  obtain ⟨m, now, _⟩ := change.keeps (Array.getElem?_eq_getElem present.index)
  exact ⟨present.own.trans change.number.symm, (Array.getElem?_eq_some_iff.mp now).1⟩

namespace Arena.Layered

theorem new (n : Nat) (d : Dialect) : (Arena.new n d).Layered :=
  ⟨fun _ stored => absurd stored newStores, (Closed.new n d).older⟩

theorem known (layered : a.Layered) (closed : p.foreign = false) (trusted : Trusted p given a) {s : Slot}
    (known : Known given a s) : a.Present s.ref := by
  cases known with
  | given issued =>
    have own := trusted.own closed s issued
    obtain ⟨n, found, _⟩ := trusted.keeps s issued own
    exact ⟨own, (Array.getElem?_eq_some_iff.mp found).1⟩
  | stored stored => exact layered.stored s stored
  | has has => exact has.present

theorem change (closed : p.foreign = false) (trusted : Trusted p given a) (change : Change given a b)
    (layered : a.Layered) : b.Layered := by
  refine ⟨fun s stored => ?_, change.older (fun s known => (layered.known closed trusted known).index) layered.older⟩
  rcases change.stores stored with older | known | has
  · exact change.keepsPresent (layered.stored s older)
  · exact change.keepsPresent (layered.known closed trusted known)
  · exact has.present

end Arena.Layered

theorem World.Reachable.layered (closed : p.foreign = false) {w : World} (reachable : w.Reachable p) :
    ∀ (n : Nat) (a : Arena), w.session.arenas[n]? = some a → a.Layered :=
  reachable.induct Arena.Layered.new fun trusted change layered => layered.change closed trusted change

namespace Arena

theorem Present.node {r : NodeRef} (present : a.Present r) : ∃ n, a.node r.handle = .ok n :=
  ⟨_, nodeIff.mpr ⟨present.own, Array.getElem?_eq_getElem present.index⟩⟩

theorem Has.found {c : Category} {h : Handle c} {shape : Shape} (has : a.Has (h.as shape)) :
    ∃ n, a.node h = .ok n ∧ shape.accepts c n = true := by
  obtain ⟨own, n, found, accepted, _⟩ := has
  exact ⟨n, nodeIff.mpr ⟨own, found⟩, accepted⟩

theorem Closed.slot (closed : a.Closed) {c d : Category} {h : Handle c} {n : Node c} {k : Handle d} {shape : Shape}
    (here : a.node h = .ok n) (mem : k.as shape ∈ Node.slots c n) : a.Has (k.as shape) :=
  closed.stored _ (.node (nodeIff.mp here).2 mem)

theorem Has.aggregate {ty : TypeRef} (has : a.Has (ty.as .aggregate)) :
    ∃ data, a.node ty = .ok (.aggregate data) := by
  obtain ⟨n, found, accepted⟩ := has.found
  cases n <;> try contradiction
  exact ⟨_, found⟩

theorem Has.enumeration {ty : TypeRef} (has : a.Has (ty.as .enumeration)) :
    ∃ data, a.node ty = .ok (.enumeration data) := by
  obtain ⟨n, found, accepted⟩ := has.found
  cases n <;> try contradiction
  exact ⟨_, found⟩

theorem Has.synonym {ty : TypeRef} (has : a.Has (ty.as .synonym)) :
    ∃ name aliased, a.node ty = .ok (.synonym name aliased) := by
  obtain ⟨n, found, accepted⟩ := has.found
  cases n <;> try contradiction
  exact ⟨_, _, found⟩

theorem Has.splitFunction {d : DeclRef} (has : a.Has (d.as .splitFunction)) :
    ∃ data, a.node d = .ok (.function data) := by
  obtain ⟨n, found, accepted⟩ := has.found
  cases n <;> try contradiction
  exact ⟨_, found⟩

theorem Has.tagName {ty : TypeRef} {shape : Shape} (has : a.Has (ty.as shape))
    (tag : shape = .aggregate ∨ shape = .enumeration ∨ shape = .synonym) : ∃ name, a.tagName ty = .ok name := by
  unfold Arena.tagName
  rcases tag with rfl | rfl | rfl
  · obtain ⟨data, found⟩ := has.aggregate
    rw [found]
    exact ⟨data.name, rfl⟩
  · obtain ⟨data, found⟩ := has.enumeration
    rw [found]
    exact ⟨data.name, rfl⟩
  · obtain ⟨name, aliased, found⟩ := has.synonym
    rw [found]
    exact ⟨name, rfl⟩

theorem Closed.nameable (closed : a.Closed) : a.Nameable where
  stored s stored := (closed.stored s stored).present
  older := closed.older
  tagged _ _ _ found _ introduces := closed.stored _ (.node found (Node.tagSlot introduces))

theorem Nameable.wrapped (nameable : a.Nameable) {d inner : DeclRef} {n : DeclNode} (here : a.node d = .ok n)
    (wraps : n.wrapped? = some inner) : a.Present inner.ref ∧ inner.index < d.index := by
  have found := (nodeIff.mp here).2
  obtain ⟨_, shape, mem⟩ := Node.wrappedSlot (c := .decl) (n := n) wraps
  exact ⟨nameable.stored _ (.node found mem), nameable.older .decl d.index n found inner wraps⟩

theorem Nameable.namedWithin (nameable : a.Nameable) {depth : Nat} {d : DeclRef} {n : DeclNode}
    (here : a.node d = .ok n) (deep : d.index < depth) : ∃ name, a.declNameWithin depth d = .ok name := by
  -- a name is found among older declarations, so the position bounds the depth
  induction depth generalizing d n with
  | zero => omega
  | succ depth ih =>
    have inside {inner : DeclRef} (wraps : n.wrapped? = some inner) :
        ∃ name, a.declNameWithin depth inner = .ok name := by
      obtain ⟨present, older⟩ := nameable.wrapped here wraps
      obtain ⟨m, found⟩ := present.node
      exact ih found (by omega)
    have tag {t : Tag} (introduces : n.tag? = some t) : a.Has t.slot :=
      nameable.tagged .decl d.index n (nodeIff.mp here).2 t introduces
    unfold declNameWithin
    rw [here]
    cases n with
    | raw text => exact ⟨_, rfl⟩
    | var data => exact ⟨_, rfl⟩
    | function data => exact ⟨_, rfl⟩
    | splitForward func => exact inside rfl
    | template params inner => exact inside rfl
    | aggregate ty forward => exact (tag rfl).tagName (.inl rfl)
    | enumeration ty forward => exact (tag rfl).tagName (.inr (.inl rfl))
    | typeDef ty => exact (tag rfl).tagName (.inr (.inr rfl))
    | usingType ty => exact (tag rfl).tagName (.inr (.inr rfl))

theorem Nameable.declName (nameable : a.Nameable) {d : DeclRef} (present : a.Present d.ref) :
    ∃ name, a.declName d = .ok name := by
  obtain ⟨n, found⟩ := present.node
  have inside : d.index < a.decls.size := present.index
  exact nameable.namedWithin found (by omega)

theorem Closed.declName (closed : a.Closed) {d : DeclRef} {shape : Shape} (has : a.Has (d.as shape)) :
    ∃ name, a.declName d = .ok name :=
  closed.nameable.declName has.present

end Arena

end CSource
