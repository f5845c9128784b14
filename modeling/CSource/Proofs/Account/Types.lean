import CSource.Proofs.Account

/-!
The account of every action that makes or changes a type. A shared type is only known to be recorded, since it may
have been made long before; every other type is new and the arena has it.
-/

namespace CSource

open Build

variable {given : Slot → Prop} {e : Effect} {a b : Arena}

theorem usedIfAllowed {used : Bool} {f : Feature} {P : Feature → Prop} (allowed : used = true → P f) :
    ∀ g ∈ usedIf used f, P g := by
  intro g mem
  cases used with
  | false => contradiction
  | true =>
    cases List.mem_singleton.mp mem
    exact allowed rfl

namespace Table

def request (t : Table) (key : t.Key) : Build TypeRef := intern t.interning key

theorem runRequest (t : Table) (key : t.Key) (a : Arena) :
    (t.request key).run a = match (t.entries a).lookup key with
      | some ty => .ok ty a
      | none => .ok (a.nextHandle .type) (t.extend key a) := by
  unfold request intern entries
  rw [EStateM.run_bind, EStateM.run_get]
  dsimp only
  cases (t.interning.entries a.interned).lookup key <;> rfl

theorem entryOfLookup {t : Table} {key : t.Key} {ty : TypeRef} (found : (t.entries a).lookup key = some ty) :
    (key, ty) ∈ t.entries a := by
  obtain ⟨before, after, split, _⟩ := List.lookup_eq_some_iff.mp found
  rw [split]
  simp

theorem recordedKnown {t : Table} {key : t.Key} {ty : TypeRef} (found : (t.entries a).lookup key = some ty) :
    Known given a ty.plain :=
  .stored (.table (entryOfLookup found) (by simp [entrySlots]))

theorem requestAccount (t : Table) (key : t.Key) (own : ∀ s ∈ (t.interning.node key).slots, s.Own a)
    (known : ∀ s ∈ (t.interning.node key).slots, Known given a s)
    (allowed : ∀ f ∈ (t.interning.node key).features, a.dialect = f.dialect) :
    Account given .does a (t.request key) (t.interning.node key).slots fun ty b => Known given b ty.plain := by
  unfold Account
  rw [runRequest]
  cases found : (t.entries a).lookup key with
  | some ty => exact ⟨.refl, own, recordedKnown found⟩
  | none =>
    refine ⟨.single (.intern t key found ?_ allowed), own, .has (t.hasExtended key)⟩
    exact fun s mem => ⟨known s mem, own s mem⟩

end Table

theorem rawTypeAccount (spelling : String) :
    Account given .does a (rawType spelling) [] fun ty b => Known given b ty.plain :=
  Table.requestAccount .raw spelling nofun nofun nofun

theorem autoTypeAccount : Account given .does a autoType [] fun ty b => Known given b ty.plain := by
  unfold autoType
  exact .check (requireChecks _) fun _ => rawTypeAccount _

theorem pointerTypeAccount {pointee : TypeRef} (known : ∀ s ∈ [pointee.plain], Known given a s) :
    Account given .does a (pointerType pointee) [pointee.plain] fun ty b => Known given b ty.plain := by
  unfold pointerType
  refine .check (ownChecks pointee) fun own => ?_
  exact Table.requestAccount .pointer pointee own known nofun

theorem referenceTypeAccount {referee : TypeRef} (known : ∀ s ∈ [referee.plain], Known given a s) :
    Account given .does a (referenceType referee) [referee.plain] fun ty b => Known given b ty.plain := by
  unfold referenceType
  refine .check (requireChecks _) fun language => ?_
  refine .check (ownChecks referee) fun own => ?_
  exact Table.requestAccount .reference referee own known (List.forall_mem_singleton.mpr language)

theorem arrayTypeAccount {element : TypeRef} {sizes : List ExprRef}
    (known : ∀ s ∈ element.plain :: plainSlots sizes, Known given a s) :
    Account given .does a (arrayType element sizes) (element.plain :: plainSlots sizes)
      fun ty b => Known given b ty.plain := by
  unfold arrayType
  refine .check (ownChecks element) fun own₁ => ?_
  refine .check (ownEachChecks sizes) fun own₂ => ?_
  exact Table.requestAccount .array (element, sizes) (List.forall_mem_append.mpr ⟨own₁, own₂⟩) known nofun

theorem namedTypeAccount {decl : DeclRef} (known : ∀ s ∈ [decl.plain], Known given a s) :
    Account given .does a (namedType decl) [decl.plain] fun ty b => Known given b ty.plain := by
  unfold namedType
  refine .check (ownChecks decl) fun own => ?_
  exact Table.requestAccount .named decl own known nofun

theorem functionTypeAccount {ret : TypeRef} {params : List TypeRef} {variadic : Bool}
    (known : ∀ s ∈ ret.plain :: plainSlots params, Known given a s) :
    Account given e a (functionType ret params variadic) (ret.plain :: plainSlots params)
      fun ty b => b.Has ty.plain := by
  unfold functionType
  refine .check (ownChecks ret) fun own₁ => ?_
  refine .check (ownEachChecks params) fun own₂ => ?_
  exact .store (c := .type) (List.forall_mem_append.mpr ⟨own₁, own₂⟩) known rfl nofun rfl rfl

theorem instantiationTypeAccount {template : DeclRef} {args : List TemplateArg}
    (known : ∀ s ∈ template.plain :: args.map (·.slot), Known given a s) :
    Account given e a (instantiationType template args) (template.plain :: args.map (·.slot))
      fun ty b => b.Has ty.plain := by
  unfold instantiationType
  refine .check (requireChecks _) fun language => ?_
  refine .check (ownChecks template) fun own₁ => ?_
  refine .check (ownArgsChecks args) fun own₂ => ?_
  exact .store (c := .type) (List.forall_mem_append.mpr ⟨own₁, own₂⟩) known rfl
    (List.forall_mem_singleton.mpr language) rfl rfl

theorem packTypeAccount {element : TypeRef} (known : ∀ s ∈ [element.plain], Known given a s) :
    Account given e a (packType element) [element.plain] fun ty b => b.Has ty.plain := by
  unfold packType
  refine .check (requireChecks _) fun language => ?_
  refine .check (ownChecks element) fun own => ?_
  exact .store (c := .type) own known rfl (List.forall_mem_singleton.mpr language) rfl rfl

theorem typeParameterAccount (keyword : ParameterKeyword) :
    Account given e a (typeParameter keyword) [] fun ty b => b.Has ty.plain := by
  unfold typeParameter
  refine .check (requireChecks _) fun language => ?_
  exact .store (c := .type) (n := .parameter keyword) nofun nofun rfl (List.forall_mem_singleton.mpr language) rfl rfl

theorem tagDeclAccount {n : DeclNode} {s : Slot} (only : n.slots = [s]) (has : a.Has s) (initial : n.Initial)
    (allowed : ∀ f ∈ n.features, a.dialect = f.dialect) :
    Account given e a (alloc .decl n) [] fun d b => b.Has d.plain := by
  have stored : Account given e a (alloc .decl n) n.slots fun d b => b.Has d.plain :=
    .store (c := .decl) (by simpa [Node.slots, only] using has.own) (by simpa [Node.slots, only] using .has has)
      initial allowed rfl rfl
  exact stored.weaken (fun _ => List.forall_mem_nil _) fun _ _ _ holds => holds

theorem newAggregateAccount (kind : AggregateKind) (name : QualName) :
    Account given e a (newAggregate kind name) []
      fun c b => b.Has (c.ty.as .aggregate) ∧ b.Has c.decl.plain := by
  unfold newAggregate
  refine .check (requireIfChecks ..) fun language => ?_
  have type : Account given .makes a (alloc .type (.aggregate ⟨kind, name, false, [], []⟩)) []
      fun h b => b.Has (h.as .aggregate) := by
    refine .store (c := .type) (n := .aggregate ⟨kind, name, false, [], []⟩) nofun nofun ⟨rfl, rfl, rfl⟩ ?_ rfl rfl
    simpa [Node.features, TypeNode.features, usedIf] using language
  refine .bind type fun ty b _ _ hasType => ?_
  refine .map (tagDeclAccount (n := .aggregate ty false) rfl hasType trivial nofun) ?_
  exact fun d c later hasDecl => ⟨later.keepsHas hasType, hasDecl⟩

theorem newEnumAccount (name : QualName) (key : Option EnumKey) :
    Account given e a (newEnum name key) []
      fun r b => b.Has (r.ty.as .enumeration) ∧ b.Has r.decl.plain := by
  unfold newEnum
  refine .check (requireIfChecks ..) fun language => ?_
  have type : Account given .makes a (alloc .type (.enumeration ⟨name, key, none, []⟩)) []
      fun h b => b.Has (h.as .enumeration) := by
    refine .store (c := .type) (n := .enumeration ⟨name, key, none, []⟩) nofun nofun ⟨rfl, rfl⟩ ?_ rfl rfl
    exact usedIfAllowed language
  refine .bind type fun ty b _ _ hasType => ?_
  refine .map (tagDeclAccount (n := .enumeration ty false) rfl hasType trivial nofun) ?_
  exact fun d c later hasDecl => ⟨later.keepsHas hasType, hasDecl⟩

theorem aggregateAtIff {ty : TypeRef} {data : Aggregate} :
    a.aggregateAt ty = .ok data ↔ a.node ty = .ok (.aggregate data) := by
  unfold Arena.aggregateAt
  cases a.node ty with
  | error cause => simp [bind, Except.bind]
  | ok n => cases n <;> simp [bind, Except.bind, pure, Except.pure]

theorem nodeOwn {c : Category} {h : Handle c} {n : Node c} (found : a.node h = .ok n) : h.arena = a.number :=
  (Arena.nodeIff.mp found).1

theorem classOwn {c : ClassRef} (same : c.decl.arena = c.ty.arena) (own : c.ty.arena = a.number) :
    ∀ s ∈ (Issued.aggregate c).slots, s.Own a := by
  simp [Issued.slots, Slot.Own, Handle.plain, Handle.as, Handle.ref, same, own]

theorem enumOwn {r : EnumRef} (same : r.decl.arena = r.ty.arena) (own : r.ty.arena = a.number) :
    ∀ s ∈ (Issued.enumeration r).slots, s.Own a := by
  simp [Issued.slots, Slot.Own, Handle.plain, Handle.as, Handle.ref, same, own]

theorem modifyAggregateAccount {ty : TypeRef} {f : Aggregate → Aggregate} {args : List Slot}
    (own : ty.arena = a.number → ∀ s ∈ args, s.Own a)
    (grown : ∀ data, a.node ty = .ok (.aggregate data) →
      Grown given a (c := .type) (.aggregate data) (.aggregate (f data))) :
    Account given .does a (modifyAggregate ty f) args fun _ _ => ty.arena = a.number := by
  unfold modifyAggregate
  refine .read fun data found => ?_
  have here := aggregateAtIff.mp found
  exact .update here (grown data here) (own (nodeOwn here)) fun _ _ => nodeOwn here

theorem modifyEnumAccount {ty : TypeRef} {f : Enumeration → Enumeration} {args : List Slot}
    (own : ty.arena = a.number → ∀ s ∈ args, s.Own a)
    (grown : ∀ data, a.node ty = .ok (.enumeration data) →
      Grown given a (c := .type) (.enumeration data) (.enumeration (f data))) :
    Account given .does a (modifyEnum ty f) args fun _ _ => True := by
  unfold modifyEnum
  refine .read fun n here => ?_
  cases n with
  | enumeration data => exact .update here (grown data here) (own (nodeOwn here)) fun _ _ => trivial
  | _ => exact .throw

theorem newMemberScopeAccount {ty : TypeRef} (known : Known given a (ty.as .aggregate)) (labeled : Bool) :
    Account given e a (newScope (.members ty labeled)) [] fun scope b =>
      scope.arena = a.number ∧ (ty.arena = a.number → b.Has (scope.as (.place .member))) := by
  refine .alloc ⟨List.forall_mem_singleton.mpr known, .inl rfl, rfl, nofun⟩ nofun ⟨rfl, fun own => ?_⟩
  refine Arena.hasPushed rfl fun p isParent => ?_
  cases Option.some.inj isParent
  exact own

theorem regionSlots {data : Aggregate} {r : Region} {s : Slot}
    (mem : s ∈ (TypeNode.aggregate { data with regions := data.regions ++ [r] }).slots) :
    s ∈ (TypeNode.aggregate data).slots ∨ s = r.scope.as (.place .member) := by
  simpa only [TypeNode.slots, List.map_append, List.map_cons, List.map_nil, List.mem_append,
    List.mem_singleton, or_assoc] using mem

theorem regionFeatures {data : Aggregate} {r : Region} {f : Feature}
    (mem : f ∈ (TypeNode.aggregate { data with regions := data.regions ++ [r] }).features) :
    f ∈ (TypeNode.aggregate data).features ∨ (r.access.isSome = true ∧ f = .accessSpecifier) := by
  simp only [TypeNode.features, List.any_append, List.any_cons, List.any_nil, Bool.or_false,
    List.mem_append] at mem ⊢
  cases used : r.access.isSome with
  | false => simpa [used] using mem
  | true =>
    rcases mem with old | new
    · exact .inl (.inl old)
    · rw [used, Bool.or_true] at new
      exact .inr ⟨rfl, List.mem_singleton.mp new⟩

theorem addScopeAccount {ty : TypeRef} {scope : ScopeRef} {access : Option Access} {args : List Slot}
    (own : ty.arena = a.number → ∀ s ∈ args, s.Own a)
    (fresh : scope.arena = a.number ∧ (ty.arena = a.number → a.Has (scope.as (.place .member))))
    (first : ∀ data, a.node ty = .ok (.aggregate data) → access = none → data.defaultScope = none)
    (language : access.isSome = true → a.dialect = Feature.accessSpecifier.dialect) :
    Account given .does a (do
      modifyAggregate ty fun d => { d with regions := d.regions ++ [⟨access, scope⟩] }
      pure (⟨.member, scope⟩ : Place)) args fun p b => Known given b p.slot := by
  refine .map (modifyAggregateAccount own fun data here =>
    ⟨.region data ⟨access, scope⟩ (first data here), ?_, ?_⟩) ?_
  · intro s mem
    rcases regionSlots mem with old | rfl
    · exact .inl old
    · exact .inr ⟨fresh.1, .has (fresh.2 (nodeOwn here))⟩
  · intro f mem
    rcases regionFeatures mem with old | ⟨labeled, rfl⟩
    · exact .inl old
    · exact .inr (language labeled)
  · exact fun _ _ later own => .has (later.keepsHas (fresh.2 own))

theorem membersAccount {c : ClassRef} (same : c.decl.arena = c.ty.arena)
    (known : ∀ s ∈ (Issued.aggregate c).slots, Known given a s) :
    Account given .does a (members c) (Issued.aggregate c).slots fun p b => Known given b p.slot := by
  unfold members
  refine .read fun data found => ?_
  have here := aggregateAtIff.mp found
  cases region : data.defaultScope with
  | some scope =>
    refine .pure (classOwn same (nodeOwn here)) (.stored (.node (Arena.nodeIff.mp here).2 ?_))
    obtain ⟨r, first, rfl⟩ := Option.map_eq_some_iff.mp region
    exact List.mem_append_right _ (List.mem_map_of_mem (List.mem_of_find?_eq_some first))
  | none =>
    refine .bind (newMemberScopeAccount (known _ (by simp [Issued.slots])) false) fun scope b extended _ fresh => ?_
    rw [← extended.number] at fresh
    refine addScopeAccount (classOwn same) fresh ?_ nofun
    intro d again _
    cases (extended.keepsNode here).symm.trans again
    exact region

theorem addRegionAccount {c : ClassRef} {access : Access} (same : c.decl.arena = c.ty.arena)
    (known : ∀ s ∈ (Issued.aggregate c).slots, Known given a s) :
    Account given .does a (addRegion c access) (Issued.aggregate c).slots fun p b => Known given b p.slot := by
  unfold addRegion
  refine .check (requireChecks _) fun language => ?_
  refine .bind (newMemberScopeAccount (known _ (by simp [Issued.slots])) true) fun scope b extended _ fresh => ?_
  rw [← extended.number] at fresh
  exact addScopeAccount (classOwn same) fresh nofun fun _ => extended.dialect.trans language

theorem addBaseAccount {c : ClassRef} {access : Access} {base : TypeRef} (same : c.decl.arena = c.ty.arena)
    (known : ∀ s ∈ [base.plain], Known given a s) :
    Account given .does a (addBase c access base) ((Issued.aggregate c).slots ++ [base.plain])
      fun _ _ => True := by
  unfold addBase
  refine .check (requireChecks _) fun language => ?_
  refine .check (ownChecks base) fun own => ?_
  refine (modifyAggregateAccount ?_ fun data here => ⟨.base data _, ?_, ?_⟩).weaken id fun _ _ _ _ => trivial
  · exact fun owned => List.forall_mem_append.mpr ⟨classOwn same owned, own⟩
  · intro s mem
    simp only [Node.slots, TypeNode.slots, List.map_append, List.map_cons, List.map_nil, List.mem_append] at mem ⊢
    rcases mem with (old | new) | old
    · exact .inl (.inl old)
    · exact .inr ⟨own s new, known s new⟩
    · exact .inl (.inr old)
  · intro f mem
    simp only [Node.features, TypeNode.features, List.mem_append] at mem ⊢
    rcases mem with ((old | old) | new) | old
    · exact .inl (.inl (.inl (.inl old)))
    · exact .inl (.inl (.inl (.inr old)))
    · exact .inr (usedIfAllowed (P := fun f => a.dialect = f.dialect) (fun _ => language) f new)
    · exact .inl (.inr old)

theorem setFinalAccount {c : ClassRef} {isFinal : Bool} (same : c.decl.arena = c.ty.arena) :
    Account given .does a (setFinal c isFinal) (Issued.aggregate c).slots fun _ _ => True := by
  unfold setFinal
  refine .check (requireChecks _) fun language => ?_
  refine (modifyAggregateAccount (classOwn same) fun data here => ⟨.final data isFinal, fun s => .inl, ?_⟩).weaken id
    fun _ _ _ _ => trivial
  intro f mem
  simp only [Node.features, TypeNode.features, List.mem_append] at mem ⊢
  rcases mem with ((old | new) | old) | old
  · exact .inl (.inl (.inl (.inl old)))
  · exact .inr (usedIfAllowed (P := fun f => a.dialect = f.dialect) (fun _ => language) f new)
  · exact .inl (.inl (.inr old))
  · exact .inl (.inr old)

theorem forwardAccount {n : DeclNode} {s : Slot} (only : n.slots = [s]) (forwarded : n.forwarded = [s])
    (known : Known given a s) (initial : n.Initial) (allowed : ∀ f ∈ n.features, a.dialect = f.dialect) :
    Account given e a (alloc .decl n) [] fun d b => b.Has d.plain := by
  refine .alloc ⟨?_, .inr fun t mem => .inr (.inl ?_), initial, allowed⟩ nofun (Arena.hasPushed rfl nofun)
  · simpa [Node.slots, only] using known
  · simpa [Node.slots, Node.forwarded, only, forwarded] using mem

theorem forwardAggregateAccount {c : ClassRef} (known : ∀ s ∈ (Issued.aggregate c).slots, Known given a s) :
    Account given e a (forwardAggregate c) [] fun d b => b.Has d.plain :=
  forwardAccount rfl rfl (known (c.ty.as .aggregate) (by simp [Issued.slots])) trivial nofun

theorem forwardEnumAccount {r : EnumRef} (known : ∀ s ∈ (Issued.enumeration r).slots, Known given a s) :
    Account given e a (forwardEnum r) [] fun d b => b.Has d.plain :=
  forwardAccount rfl rfl (known (r.ty.as .enumeration) (by simp [Issued.slots])) trivial nofun

theorem addEnumMemberAccount {r : EnumRef} {name : String} {value : Option ExprRef}
    (same : r.decl.arena = r.ty.arena) (known : ∀ s ∈ optionSlots value, Known given a s) :
    Account given .does a (addEnumMember r name value) ((Issued.enumeration r).slots ++ optionSlots value)
      fun _ _ => True := by
  unfold addEnumMember
  refine .check (ownOptionChecks value) fun own => ?_
  refine modifyEnumAccount ?_ fun data here => ⟨.member data _, ?_, fun f => .inl⟩
  · exact fun owned => List.forall_mem_append.mpr ⟨enumOwn same owned, own⟩
  · intro s mem
    simp only [Node.slots, TypeNode.slots, List.flatMap_append, List.flatMap_cons, List.flatMap_nil,
      List.append_nil, List.mem_append] at mem ⊢
    rcases mem with old | old | new
    · exact .inl (.inl old)
    · exact .inl (.inr old)
    · exact .inr ⟨own s new, known s new⟩

theorem setUnderlyingAccount {r : EnumRef} {ty : TypeRef} (same : r.decl.arena = r.ty.arena)
    (known : ∀ s ∈ [ty.plain], Known given a s) :
    Account given .does a (setUnderlying r ty) ((Issued.enumeration r).slots ++ [ty.plain]) fun _ _ => True := by
  unfold setUnderlying
  refine .check (ownChecks ty) fun own => ?_
  refine modifyEnumAccount ?_ fun data here => ⟨.underlying data _, ?_, fun f => .inl⟩
  · exact fun owned => List.forall_mem_append.mpr ⟨enumOwn same owned, own⟩
  · intro s mem
    rcases List.mem_append.mp mem with new | old
    · exact .inr ⟨own s new, known s new⟩
    · exact .inl (List.mem_append_right _ old)

theorem setEnumKeyAccount {r : EnumRef} {key : EnumKey} (same : r.decl.arena = r.ty.arena) :
    Account given .does a (setEnumKey r key) (Issued.enumeration r).slots fun _ _ => True := by
  unfold setEnumKey
  refine .check (requireChecks _) fun language => ?_
  refine modifyEnumAccount (enumOwn same) fun data here => ⟨.key data _, fun s => .inl, ?_⟩
  intro f mem
  cases List.mem_singleton.mp mem
  exact .inr language

end CSource
