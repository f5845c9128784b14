import CSource.Proofs.Change

/-!
The account of an action: what it did to the arena, whether it succeeds or is refused. A refused action has stored
nodes and done nothing else. One that succeeds has refused none of the handles in `args`, and has either stored
nodes only (`makes`) or also changed what was there (`does`). Where an action may still be refused, whatever came
before it has to be of the first kind; that is the order in which the rules below let actions follow each other. The
late account is for the few actions that do not keep to this order.
-/

namespace CSource

open Build

inductive Effect where
  | makes
  | does
  deriving DecidableEq, Repr

def Effect.Rel (given : Slot → Prop) : Effect → Arena → Arena → Prop
  | makes => Extends given
  | does => Changes given

def Account {α : Type} (given : Slot → Prop) (e : Effect) (a : Arena) (m : Build α) (args : List Slot)
    (post : α → Arena → Prop) : Prop :=
  match m.run a with
  | .ok x b => e.Rel given a b ∧ (∀ s ∈ args, s.Own a) ∧ post x b
  | .error _ b => Extends given a b

/-- The account of an action that may be refused after it has changed what was there. -/
def LateAccount {α : Type} (given : Slot → Prop) (a : Arena) (m : Build α) (args : List Slot)
    (post : α → Arena → Prop) : Prop :=
  match m.run a with
  | .ok x b => Changes given a b ∧ (∀ s ∈ args, s.Own a) ∧ post x b
  | .error _ b => Changes given a b

/-- The action changes nothing, and `P` holds if it is not refused. -/
def Checks (m : Build Unit) (a : Arena) (P : Prop) : Prop :=
  (m.run a = .ok () a ∧ P) ∨ ∃ e, m.run a = .error e a

variable {given : Slot → Prop} {e : Effect} {α β : Type} {a : Arena}

namespace Effect

theorem relRefl (a : Arena) : e.Rel given a a := by
  cases e with
  | makes => exact Extends.refl
  | does => exact Relation.ReflTransGen.refl

theorem relAfter {b c : Arena} (first : Extends given a b) (second : e.Rel given b c) : e.Rel given a c := by
  cases e with
  | makes => exact Extends.trans first second
  | does => exact first.changes.trans second

theorem relChanges {b : Arena} (h : e.Rel given a b) : Changes given a b := by
  cases e with
  | makes => exact Extends.changes h
  | does => exact h

theorem relPush {c : Category} {n : Node c} (born : Born given a n) : e.Rel given a (a.push c n) :=
  relAfter (.push .refl n born) (relRefl _)

end Effect

namespace Account

variable {m : Build α} {f : α → Build β} {args : List Slot} {post : β → Arena → Prop}

theorem pure {x : β} (own : ∀ s ∈ args, s.Own a) (holds : post x a) :
    Account given e a (Pure.pure x) args post :=
  ⟨Effect.relRefl a, own, holds⟩

theorem throw {cause : Misuse} : Account given e a (throw cause : Build β) args post :=
  Extends.refl

theorem throwBind {cause : Misuse} : Account given e a ((MonadExcept.throw cause : Build α) >>= f) args post :=
  Extends.refl

theorem bind {args₁ : List Slot} {post₁ : α → Arena → Prop} (first : Account given .makes a m args₁ post₁)
    (rest : ∀ x b, Extends given a b → (∀ s ∈ args₁, s.Own b) → post₁ x b → Account given e b (f x) args post) :
    Account given e a (m >>= f) args post := by
  unfold Account at first ⊢
  rw [EStateM.run_bind]
  cases ran : m.run a with
  | error cause b =>
    rw [ran] at first
    exact first
  | ok x b =>
    rw [ran] at first
    obtain ⟨extended, own, holds⟩ := first
    have second := rest x b extended (fun s mem => extended.keepsOwn.mpr (own s mem)) holds
    unfold Account at second
    dsimp only
    cases again : (f x).run b with
    | error cause c =>
      rw [again] at second
      exact extended.trans second
    | ok y c =>
      rw [again] at second
      exact ⟨Effect.relAfter extended second.1, fun s mem => extended.keepsOwn.mp (second.2.1 s mem), second.2.2⟩

theorem bindSure {post₁ : α → Arena → Prop} (first : Account given .does a m args post₁)
    (rest : ∀ x b, Changes given a b → (∀ s ∈ args, s.Own b) → post₁ x b →
      Account given .does b (f x) [] post ∧ ∃ y c, (f x).run b = .ok y c) :
    Account given .does a (m >>= f) args post := by
  unfold Account at first ⊢
  rw [EStateM.run_bind]
  cases ran : m.run a with
  | error cause b =>
    rw [ran] at first
    exact first
  | ok x b =>
    rw [ran] at first
    obtain ⟨changed, own, holds⟩ := first
    have ownLater : ∀ s ∈ args, s.Own b := fun s mem => (own s mem).trans (Changes.number changed).symm
    obtain ⟨account, y, c, again⟩ := rest x b changed ownLater holds
    unfold Account at account
    dsimp only
    rw [again] at account ⊢
    exact ⟨Relation.ReflTransGen.trans changed account.1, own, account.2.2⟩

theorem late {m : Build β} (account : Account given e a m args post) : LateAccount given a m args post := by
  unfold Account at account
  unfold LateAccount
  cases ran : m.run a with
  | error cause b =>
    rw [ran] at account
    exact account.changes
  | ok x b =>
    rw [ran] at account
    exact ⟨Effect.relChanges account.1, account.2⟩

theorem bindLate {post₁ : α → Arena → Prop} (first : Account given .does a m args post₁)
    (rest : ∀ x b, Changes given a b → post₁ x b → Account given .does b (f x) [] post) :
    LateAccount given a (m >>= f) args post := by
  unfold Account at first
  unfold LateAccount
  rw [EStateM.run_bind]
  cases ran : m.run a with
  | error cause b =>
    rw [ran] at first
    exact first.changes
  | ok x b =>
    rw [ran] at first
    obtain ⟨changed, own, holds⟩ := first
    have second := (rest x b changed holds).late
    unfold LateAccount at second
    dsimp only
    cases again : (f x).run b with
    | error cause c =>
      rw [again] at second
      exact Relation.ReflTransGen.trans changed second
    | ok y c =>
      rw [again] at second
      exact ⟨Relation.ReflTransGen.trans changed second.1, own, second.2.2⟩

theorem map {post₁ : α → Arena → Prop} {g : α → β} (first : Account given e a m args post₁)
    (holds : ∀ x b, Changes given a b → post₁ x b → post (g x) b) :
    Account given e a (m >>= fun x => Pure.pure (g x)) args post := by
  unfold Account at first ⊢
  rw [EStateM.run_bind]
  cases ran : m.run a with
  | error cause b =>
    rw [ran] at first
    exact first
  | ok x b =>
    rw [ran] at first
    exact ⟨first.1, first.2.1, holds x b (Effect.relChanges first.1) first.2.2⟩

theorem mapped {post₁ : α → Arena → Prop} {g : α → β} (first : Account given e a m args post₁)
    (holds : ∀ x b, Changes given a b → post₁ x b → post (g x) b) : Account given e a (g <$> m) args post := by
  rw [map_eq_pure_bind]
  exact first.map holds

theorem discardBind (m : Build α) (f : PUnit → Build β) : Functor.discard m >>= f = m >>= fun _ => f ⟨⟩ := by
  simp [Functor.discard, map_const]

theorem discard {post₁ : α → Arena → Prop} {y : β} (first : Account given e a m args post₁)
    (holds : ∀ b, Changes given a b → post y b) :
    Account given e a (Functor.discard m >>= fun _ => Pure.pure y) args post := by
  rw [discardBind]
  exact first.map fun _ b later _ => holds b later

theorem weaken {args₁ : List Slot} {post₁ : β → Arena → Prop} {m : Build β} (h : Account given e a m args₁ post₁)
    (own : (∀ s ∈ args₁, s.Own a) → ∀ s ∈ args, s.Own a)
    (holds : ∀ x b, Changes given a b → post₁ x b → post x b) : Account given e a m args post := by
  unfold Account at h ⊢
  cases ran : m.run a with
  | error cause b =>
    rw [ran] at h
    exact h
  | ok x b =>
    rw [ran] at h
    exact ⟨h.1, own h.2.1, holds x b (Effect.relChanges h.1) h.2.2⟩

theorem forget {m : Build β} (h : Account given e a m args post) : Account given e a m [] post :=
  h.weaken nofun fun _ _ _ holds => holds

theorem withOwn {args₁ : List Slot} {m : Build β} (own : ∀ s ∈ args₁, s.Own a) (h : Account given e a m args post) :
    Account given e a m (args₁ ++ args) post :=
  h.weaken (fun rest => List.forall_mem_append.mpr ⟨own, rest⟩) fun _ _ _ holds => holds

theorem bindFirst {post₁ : α → Arena → Prop} (first : Account given .makes a m args post₁)
    (rest : ∀ x b, Extends given a b → post₁ x b → Account given e b (f x) [] post) :
    Account given e a (m >>= f) args post :=
  first.bind fun x b extended own holds => (rest x b extended holds).weaken (fun _ => own) fun _ _ _ holds => holds

theorem check {m : Build Unit} {f : Unit → Build β} {P : Prop} (checks : Checks m a P)
    (rest : P → Account given e a (f ()) args post) : Account given e a (m >>= f) args post := by
  unfold Account
  rw [EStateM.run_bind]
  rcases checks with ⟨ran, holds⟩ | ⟨cause, ran⟩
  · rw [ran]
    exact rest holds
  · rw [ran]
    exact Extends.refl

theorem read {g : Arena → Except Misuse α}
    (rest : ∀ x, g a = .ok x → Account given e a (f x) args post) : Account given e a (read g >>= f) args post := by
  unfold Account
  rw [EStateM.run_bind, runRead]
  cases found : g a with
  | error cause => exact Extends.refl
  | ok x => exact rest x found

theorem alloc {c : Category} {n : Node c} {post : Handle c → Arena → Prop} (born : Born given a n)
    (own : ∀ s ∈ args, s.Own a) (holds : post (a.nextHandle c) (a.push c n)) :
    Account given e a (Build.alloc c n) args post :=
  ⟨Effect.relPush born, own, holds⟩

theorem store {c : Category} {n : Node c} {shape : Shape} (own : ∀ s ∈ Node.slots c n, s.Own a)
    (known : ∀ s ∈ Node.slots c n, Known given a s) (initial : Node.Initial c n)
    (allowed : ∀ f ∈ Node.features c n, a.dialect = f.dialect) (accepted : shape.accepts c n = true)
    (orphan : Node.parent? c n = none) :
    Account given e a (Build.alloc c n) (Node.slots c n) fun h b => b.Has (h.as shape) := by
  refine alloc ⟨known, .inr fun s mem => .inl (own s mem), initial, allowed⟩ own ?_
  refine Arena.hasPushed accepted ?_
  intro p isParent
  rw [orphan] at isParent
  contradiction

theorem newScope {kind : ScopeKind} {shape : Shape} (orphan : kind.parent? = none)
    (accepted : shape.acceptsScope kind = true) :
    Account given e a (Build.newScope kind) [] fun h b => b.Has (h.as shape) := by
  have none : Node.slots .scope ⟨kind, []⟩ = [] := by
    simp [Node.slots, ScopeNode.slots, ScopeKind.slots, orphan]
  have stored : Account given e a (Build.newScope kind) _ _ :=
    store (c := .scope) (n := ⟨kind, []⟩) (by simp [none]) (by simp [none]) rfl nofun accepted orphan
  rwa [none] at stored

theorem newBody : Account given e a Build.newBody [] fun h b => b.Has (h.as (.place .function)) :=
  newScope rfl rfl

theorem update {c : Category} {h : Handle c} {old new : Node c} {post : Unit → Arena → Prop}
    (found : a.node h = .ok old) (grown : Grown given a old new) (own : ∀ s ∈ args, s.Own a)
    (holds : ∀ b, Changes given a b → post () b) : Account given .does a (Build.update h new) args post :=
  have changed : Changes given a (a.replace h new) := .single (.grow h old new found grown)
  ⟨changed, own, holds _ changed⟩

theorem updateGive {c : Category} {h : Handle c} {old new : Node c} {y : β} (found : a.node h = .ok old)
    (grown : Grown given a old new) (own : ∀ s ∈ args, s.Own a) (holds : ∀ b, Changes given a b → post y b) :
    Account given .does a (Build.update h new >>= fun _ => Pure.pure y) args post := by
  have updated : Account given .does a (Build.update h new) args fun _ _ => True :=
    update found grown own fun _ _ => trivial
  exact updated.map fun _ b later _ => holds b later

end Account

namespace LateAccount

variable {m : Build α} {args : List Slot} {post : β → Arena → Prop}

theorem check {m : Build Unit} {f : Unit → Build β} {P : Prop} (checks : Checks m a P)
    (rest : P → LateAccount given a (f ()) args post) : LateAccount given a (m >>= f) args post := by
  unfold LateAccount
  rw [EStateM.run_bind]
  rcases checks with ⟨ran, holds⟩ | ⟨cause, ran⟩
  · rw [ran]
    exact rest holds
  · rw [ran]
    exact Relation.ReflTransGen.refl

theorem mapped {post₁ : α → Arena → Prop} {g : α → β} (first : LateAccount given a m args post₁)
    (holds : ∀ x b, post₁ x b → post (g x) b) : LateAccount given a (g <$> m) args post := by
  unfold LateAccount at first ⊢
  rw [map_eq_pure_bind, EStateM.run_bind]
  cases ran : m.run a with
  | error cause b =>
    rw [ran] at first
    exact first
  | ok x b =>
    rw [ran] at first
    exact ⟨first.1, first.2.1, holds x b first.2.2⟩

end LateAccount

theorem runOwn {c : Category} {h : Handle c} (own : h.arena = a.number) : (Build.own h).run a = .ok () a :=
  (runOwns h a).trans (if_pos (beq_iff_eq.mpr own))

theorem ownChecks {c : Category} (h : Handle c) : Checks (own h) a (∀ s ∈ [h.plain], s.Own a) := by
  unfold Checks
  rw [runOwns]
  by_cases owned : a.owns h = true
  · simp_all [Arena.owns, Slot.Own, Handle.plain, Handle.as, Handle.ref]
  · exact .inr ⟨_, by rw [if_neg owned]⟩

theorem ownEachChecks {c : Category} (hs : List (Handle c)) :
    Checks (ownEach hs) a (∀ s ∈ plainSlots hs, s.Own a) := by
  induction hs with
  | nil => exact .inl ⟨rfl, by simp [plainSlots]⟩
  | cons h hs ih =>
    rcases ownChecks (a := a) h with ⟨ran, first⟩ | ⟨cause, ran⟩
    · rcases ih with ⟨again, rest⟩ | ⟨cause, again⟩
      · refine .inl ⟨?_, List.forall_mem_cons.mpr ⟨first _ (by simp), rest⟩⟩
        simpa [ownEach, ran] using again
      · exact .inr ⟨cause, by simpa [ownEach, ran] using again⟩
    · exact .inr ⟨cause, by simp [ownEach, ran]⟩

theorem ownOptionChecks {c : Category} (h : Option (Handle c)) :
    Checks (ownOption h) a (∀ s ∈ optionSlots h, s.Own a) := by
  cases h with
  | none => exact .inl ⟨rfl, by simp [optionSlots]⟩
  | some h => exact ownChecks h

theorem ownArgChecks (arg : TemplateArg) : Checks (ownArg arg) a (∀ s ∈ [arg.slot], s.Own a) := by
  cases arg with
  | type ty => exact ownChecks ty
  | expr x => exact ownChecks x

theorem ownArgsChecks (args : List TemplateArg) :
    Checks (ownArgs args) a (∀ s ∈ args.map (·.slot), s.Own a) := by
  induction args with
  | nil => exact .inl ⟨rfl, by simp⟩
  | cons arg args ih =>
    rcases ownArgChecks (a := a) arg with ⟨ran, first⟩ | ⟨cause, ran⟩
    · rcases ih with ⟨again, rest⟩ | ⟨cause, again⟩
      · refine .inl ⟨?_, List.forall_mem_cons.mpr ⟨first _ (by simp), rest⟩⟩
        simpa [ownArgs, ran] using again
      · exact .inr ⟨cause, by simpa [ownArgs, ran] using again⟩
    · exact .inr ⟨cause, by simp [ownArgs, ran]⟩

theorem ownEntryChecks (entry : Entry) : Checks (ownEntry entry) a (∀ s ∈ [entry.slot], s.Own a) := by
  cases entry with
  | decl d => exact ownChecks d
  | stmt s => exact ownChecks s
  | directive d => exact ownChecks d

theorem ownFoldChecks (kind : Fold) : Checks (ownFold kind) a (∀ s ∈ kind.slots, s.Own a) := by
  cases kind with
  | unaryLeft | unaryRight => exact .inl ⟨rfl, by simp [Fold.slots]⟩
  | binaryLeft start | binaryRight start => exact ownChecks start

theorem ownConditionChecks (head : Condition) : Checks (ownCondition head) a (∀ s ∈ head.slots, s.Own a) := by
  cases head with
  | holds cond => exact ownChecks cond
  | isDefined name | isUndefined name => exact .inl ⟨rfl, by simp [Condition.slots]⟩

theorem requireChecks (f : Feature) : Checks (require f) a (a.dialect = f.dialect) := by
  unfold Checks
  rw [runRequire]
  by_cases same : a.dialect = f.dialect
  · exact .inl ⟨if_pos same, same⟩
  · exact .inr ⟨_, if_neg same⟩

theorem requireIfChecks (condition : Bool) (f : Feature) :
    Checks (requireIf condition f) a (condition = true → a.dialect = f.dialect) := by
  cases condition with
  | false => exact .inl ⟨rfl, nofun⟩
  | true =>
    rcases requireChecks (a := a) f with ⟨ran, same⟩ | ⟨cause, ran⟩
    · exact .inl ⟨by simpa [requireIf] using ran, fun _ => same⟩
    · exact .inr ⟨cause, by simpa [requireIf] using ran⟩

end CSource
