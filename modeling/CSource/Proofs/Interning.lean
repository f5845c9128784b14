import CSource.Proofs.Soundness
import Mathlib.Data.List.Nodup

/-!
Shared types are made once per key. In every arena that can be reached the tables list exactly the shared types of
the arena in the order of their positions, so a key has one type for the whole of a run.
-/

namespace CSource

namespace Table

def key? : (t : Table) → TypeNode → Option t.Key
  | raw, .raw spelling => some spelling
  | pointer, .pointer ty => some ty
  | reference, .reference ty => some ty
  | array, .array element sizes => some (element, sizes)
  | named, .named decl => some decl
  | _, _ => none

def keys (t : Table) (a : Arena) : List (Option t.Key) := a.types.toList.map t.key?

def shared (t : Table) (a : Arena) : List (t.Key × TypeRef) :=
  (t.keys a).zipIdx.filterMap fun (key, i) => key.map (·, ⟨a.number, i⟩)

theorem keyIff {t : Table} {n : TypeNode} {key : t.Key} : t.key? n = some key ↔ n = t.interning.node key := by
  constructor
  · intro found
    cases t <;> cases n <;> first | contradiction | (cases Option.some.inj found; rfl)
  · rintro rfl
    cases t <;> rfl

theorem keyOther {t u : Table} (ne : t ≠ u) (key : t.Key) : u.key? (t.interning.node key) = none := by
  cases t <;> cases u <;> first | exact absurd rfl ne | rfl

theorem keyUnshared {n : TypeNode} (t : Table) (unshared : n.isShared = false) : t.key? n = none := by
  cases t <;> cases n <;> first | rfl | contradiction

theorem memShared {t : Table} {a : Arena} {key : t.Key} {ty : TypeRef} :
    (key, ty) ∈ t.shared a ↔ ty.arena = a.number ∧ a.types[ty.index]? = some (t.interning.node key) := by
  unfold shared keys
  constructor
  · intro mem
    obtain ⟨⟨found, i⟩, listed, made⟩ := List.mem_filterMap.mp mem
    obtain ⟨key', rfl, same⟩ := Option.map_eq_some_iff.mp made
    cases same
    have there := List.mem_zipIdx_iff_getElem?.mp listed
    rw [List.getElem?_map, Option.map_eq_some_iff] at there
    obtain ⟨n, there, isKey⟩ := there
    rw [keyIff.mp isKey] at there
    exact ⟨rfl, by simpa using there⟩
  · rintro ⟨own, there⟩
    refine List.mem_filterMap.mpr ⟨(some key, ty.index), List.mem_zipIdx_iff_getElem?.mpr ?_, ?_⟩
    · simp [there, keyIff.mpr rfl]
    · simp [← own]

theorem sharedPush {t : Table} {a b : Arena} {n : TypeNode} (number : b.number = a.number)
    (types : b.types = a.types.push n) :
    t.shared b = t.shared a ++ ((t.key? n).map (·, a.nextHandle .type)).toList := by
  simp only [shared, keys, number, types, Array.toList_push, List.map_append, List.map_cons, List.map_nil,
    List.zipIdx_append, List.filterMap_append]
  cases t.key? n <;> simp [Arena.nextHandle, Arena.nodes]

theorem sharedKeys (t : Table) (a : Arena) : (t.shared a).map Prod.fst = a.types.toList.filterMap t.key? := by
  have positions := List.zipIdx_map_fst 0 (t.keys a)
  have keys : a.types.toList.filterMap t.key? = (t.keys a).filterMap id := by
    rw [Table.keys, List.filterMap_map]
    rfl
  rw [keys, ← positions, List.filterMap_map, shared, List.map_filterMap]
  congr 1
  funext ⟨key, i⟩
  cases key <;> rfl

end Table

/-- The shared types are those that the tables list, by position and one for each key, and `void` stands first. -/
structure Arena.Consed (a : Arena) : Prop where
  listed : ∀ t : Table, t.entries a = t.shared a
  distinct : ∀ t : Table, ((t.entries a).map Prod.fst).Nodup
  void : ∀ i, a.types[i]? = some .void ↔ i = 0

variable {p : Policy} {given : Slot → Prop} {a b : Arena}

theorem Arena.Consed.sameTypes (consed : a.Consed) (number : b.number = a.number) (types : b.types = a.types)
    (entries : ∀ t : Table, t.entries b = t.entries a) : b.Consed := by
  have shared (t : Table) : t.shared b = t.shared a := by
    unfold Table.shared Table.keys
    rw [number, types]
  refine ⟨fun t => ?_, fun t => ?_, fun i => ?_⟩
  · rw [entries, shared, consed.listed]
  · rw [entries]
    exact consed.distinct t
  · rw [types]
    exact consed.void i

theorem Arena.Consed.new (n : Nat) (d : Dialect) : (Arena.new n d).Consed := by
  refine ⟨fun t => ?_, fun t => ?_, fun i => ?_⟩
  · cases t <;> rfl
  · cases t <;> exact List.nodup_nil
  · cases i <;> simp [Arena.new]

theorem voidPush {n : TypeNode} (consed : a.Consed) (other : n ≠ .void) (i : Nat) :
    (a.types.push n)[i]? = some .void ↔ i = 0 := by
  have first := (Array.getElem?_eq_some_iff.mp ((consed.void 0).mpr rfl)).1
  rw [Array.getElem?_push]
  split
  · rename_i last
    exact ⟨fun same => absurd (Option.some.inj same) other, by omega⟩
  · exact consed.void i

theorem Arena.Consed.store (consed : a.Consed) {n : TypeNode} (unshared : n.isShared = false) :
    (a.push .type n).Consed := by
  have pushed (t : Table) : t.shared (a.push .type n) = _ := Table.sharedPush (a := a) (n := n) rfl rfl
  refine ⟨fun t => ?_, fun t => ?_, ?_⟩
  · rw [pushed, Table.keyUnshared t unshared]
    simpa [Table.entries] using consed.listed t
  · simpa [Table.entries] using consed.distinct t
  · refine voidPush consed ?_
    rintro rfl
    contradiction

theorem lookupListed {t : Table} {e : t.Key × TypeRef} (listed : e ∈ t.entries a) :
    (t.entries a).lookup e.1 ≠ none := by
  intro miss
  have hit := List.lookup_eq_none_iff.mp miss e listed
  simp at hit

theorem Arena.Consed.lookup (consed : a.Consed) {t : Table} {key : t.Key} {ty : TypeRef} :
    (t.entries a).lookup key = some ty ↔ (key, ty) ∈ t.entries a := by
  refine ⟨Table.entryOfLookup, fun listed => ?_⟩
  cases found : (t.entries a).lookup key with
  | none => exact absurd found (lookupListed listed)
  | some other =>
    have same := List.inj_on_of_nodup_map (consed.distinct t) (Table.entryOfLookup found) listed rfl
    cases same
    rfl

theorem Arena.Consed.sameType (consed : a.Consed) {t : Table} {key key' : t.Key} {ty ty' : TypeRef}
    (first : (key, ty) ∈ t.entries a) (second : (key', ty') ∈ t.entries a) : ty = ty' ↔ key = key' := by
  constructor
  · rintro rfl
    rw [consed.listed, Table.memShared] at first second
    have same := Option.some.inj (first.2.symm.trans second.2)
    exact Option.some.inj ((Table.keyIff.mpr same).symm.trans (Table.keyIff.mpr rfl)).symm
  · rintro rfl
    exact Option.some.inj ((consed.lookup.mpr first).symm.trans (consed.lookup.mpr second))

theorem Arena.Consed.record (consed : a.Consed) {t : Table} {key : t.Key}
    (miss : (t.entries a).lookup key = none) : (t.extend key a).Consed := by
  have pushed (u : Table) : u.shared (t.extend key a) = _ :=
    Table.sharedPush (a := a) (n := t.interning.node key) (t.numberExtend key a) rfl
  have absent : key ∉ (t.entries a).map Prod.fst := by
    intro mem
    obtain ⟨e, listed, rfl⟩ := List.mem_map.mp mem
    exact lookupListed listed miss
  refine ⟨fun u => ?_, fun u => ?_, ?_⟩
  · rw [pushed]
    by_cases same : t = u
    · subst same
      rw [Table.entriesExtend, Table.keyIff.mpr rfl, consed.listed]
      rfl
    · rw [Table.entriesExtendOther same, Table.keyOther same, consed.listed]
      exact (List.append_nil _).symm
  · by_cases same : t = u
    · subst same
      rw [Table.entriesExtend, List.map_append]
      refine List.nodup_append.mpr ⟨consed.distinct t, by simp, ?_⟩
      intro k mem l last same
      cases List.mem_singleton.mp last
      subst same
      exact absent mem
    · rw [Table.entriesExtendOther same]
      exact consed.distinct u
  · refine voidPush consed ?_
    cases t <;> nofun

theorem growsUnshared {old new : TypeNode} (grows : TypeNode.Grows old new) :
    old.isShared = false ∧ new.isShared = false := by
  cases grows <;> exact ⟨rfl, rfl⟩

theorem Arena.Consed.replace (consed : a.Consed) {h : TypeRef} {old new : TypeNode} (here : a.node h = .ok old)
    (grows : TypeNode.Grows old new) : (a.replace h new).Consed := by
  have present : a.types[h.index]? = some old := (Arena.nodeIff.mp here).2
  obtain ⟨oldUnshared, newUnshared⟩ := growsUnshared grows
  have keys (t : Table) : t.keys (a.replace h new) = t.keys a := by
    show ((a.types.setIfInBounds h.index new).toList).map t.key? = a.types.toList.map t.key?
    apply List.ext_getElem?
    intro i
    rw [Array.toList_setIfInBounds, List.getElem?_map, List.getElem?_map, List.getElem?_set]
    split
    · rename_i same
      subst same
      split
      · simp [present, Table.keyUnshared t oldUnshared, Table.keyUnshared t newUnshared]
      · simp_all
    · rfl
  have shared (t : Table) : t.shared (a.replace h new) = t.shared a := by
    unfold Table.shared
    rw [keys, Arena.numberReplace]
  refine ⟨fun t => ?_, fun t => ?_, fun i => ?_⟩
  · rw [shared]
    simpa [Table.entries] using consed.listed t
  · simpa [Table.entries] using consed.distinct t
  · show (a.types.setIfInBounds h.index new)[i]? = some .void ↔ i = 0
    rw [Array.getElem?_setIfInBounds]
    split
    · rename_i same
      subst same
      have oldDiffers : h.index ≠ 0 := by
        intro first
        have isVoid := (consed.void h.index).mpr first
        cases Option.some.inj (present.symm.trans isVoid)
        contradiction
      split
      · refine ⟨fun isVoid => ?_, fun first => absurd first oldDiffers⟩
        cases Option.some.inj isVoid
        contradiction
      · refine ⟨fun isVoid => ?_, fun first => absurd first oldDiffers⟩
        contradiction
    · exact consed.void i

theorem Arena.Consed.change (consed : a.Consed) (change : Change given a b) : b.Consed := by
  cases change with
  | @alloc c n born =>
    by_cases isType : c = .type
    · subst isType
      refine consed.store ?_
      have initial : TypeNode.Initial n := born.initial
      cases n <;> first | rfl | exact initial
    · refine consed.sameTypes (by simp) (Arena.nodesPushOther a isType n) fun t => ?_
      simp [Table.entries]
  | intern t key miss known allowed => exact consed.record miss
  | @grow c h old new here grown =>
    by_cases isType : c = .type
    · subst isType
      exact consed.replace here grown.grows
    · refine consed.sameTypes (by simp) (Arena.nodesReplaceOther a isType h new) fun t => ?_
      simp [Table.entries]
  | comment r f own known => exact consed.sameTypes rfl rfl fun t => rfl

theorem World.Reachable.consed {w : World} (reachable : w.Reachable p) :
    ∀ (n : Nat) (a : Arena), w.session.arenas[n]? = some a → a.Consed :=
  reachable.induct Arena.Consed.new fun _ change consed => consed.change change

theorem Change.entries (change : Change given a b) (t : Table) : t.entries a <+: t.entries b := by
  cases change with
  | alloc n born => simp [Table.entries]
  | intern u key miss known allowed =>
    by_cases same : u = t
    · subst same
      rw [Table.entriesExtend]
      exact List.prefix_append ..
    · have kept := Table.entriesExtendOther same key a
      exact kept.symm ▸ List.prefix_rfl
  | grow h old new here grown => simp [Table.entries]
  | comment r f own known => exact List.prefix_rfl

namespace Table

variable {t : Table} {key : t.Key} {ty : TypeRef}

def call : (t : Table) → t.Key → Call
  | raw, spelling => .type (.raw spelling)
  | pointer, ty => .type (.pointer ty)
  | reference, ty => .type (.reference ty)
  | array, key => .type (.array key.1 key.2)
  | named, decl => .type (.named decl)

structure Admits (t : Table) (key : t.Key) (a : Arena) : Prop where
  own : ∀ s ∈ (t.interning.node key).slots, s.Own a
  allowed : ∀ f ∈ (t.interning.node key).features, a.dialect = f.dialect

theorem Admits.same (admits : t.Admits key a) (number : b.number = a.number) (dialect : b.dialect = a.dialect) :
    t.Admits key b :=
  ⟨fun s mem => (admits.own s mem).trans number.symm, fun f mem => dialect.trans (admits.allowed f mem)⟩

theorem requestRecords (admits : t.Admits key a) (ran : (t.request key).run a = .ok ty b) :
    (key, ty) ∈ t.entries b ∧ t.Admits key b := by
  rw [runRequest] at ran
  cases found : (t.entries a).lookup key with
  | some other =>
    rw [found] at ran
    cases ran
    exact ⟨entryOfLookup found, admits⟩
  | none =>
    rw [found] at ran
    cases ran
    rw [entriesExtend]
    exact ⟨List.mem_append_right _ (List.mem_singleton_self _), admits.same (by simp) (by simp)⟩

theorem requestRepeats (consed : a.Consed) (listed : (key, ty) ∈ t.entries a) :
    (t.request key).run a = .ok ty a := by
  rw [runRequest, consed.lookup.mpr listed]

theorem requestKeeps (consed : a.Consed) (ran : (t.request key).run a = .ok ty b) :
    b.Consed ∧ t.entries a <+: t.entries b := by
  rw [runRequest] at ran
  cases found : (t.entries a).lookup key with
  | some other =>
    rw [found] at ran
    cases ran
    exact ⟨consed, List.prefix_rfl⟩
  | none =>
    rw [found] at ran
    cases ran
    rw [entriesExtend]
    exact ⟨consed.record found, List.prefix_append ..⟩

theorem mappedOk {α : Type} {f : α → Answer} {m : Build α} {answer : Answer}
    (ran : (f <$> m).run a = .ok answer b) : ∃ x, m.run a = .ok x b ∧ f x = answer := by
  rw [map_eq_pure_bind, EStateM.run_bind] at ran
  cases performed : m.run a with
  | error cause c =>
    rw [performed] at ran
    contradiction
  | ok x c =>
    rw [performed] at ran
    cases ran
    exact ⟨x, rfl, rfl⟩

theorem checkedOk {α : Type} {m : Build Unit} {f : Unit → Build α} {x : α} {P : Prop} (checks : Checks m a P)
    (ran : (m >>= f).run a = .ok x b) : P ∧ (f ()).run a = .ok x b := by
  rw [EStateM.run_bind] at ran
  rcases checks with ⟨passed, holds⟩ | ⟨cause, failed⟩
  · rw [passed] at ran
    exact ⟨holds, ran⟩
  · rw [failed] at ran
    contradiction

theorem callRequests {answer : Answer} (ran : (t.call key).perform.run a = .ok answer b) :
    t.Admits key a ∧ ∃ ty, (t.request key).run a = .ok ty b ∧ answer = .type ty := by
  cases t with
  | raw =>
    obtain ⟨ty, made, rfl⟩ := mappedOk ran
    exact ⟨⟨nofun, nofun⟩, ty, made, rfl⟩
  | pointer =>
    obtain ⟨ty, made, rfl⟩ := mappedOk ran
    obtain ⟨own, made⟩ := checkedOk (ownChecks _) made
    exact ⟨⟨own, nofun⟩, ty, made, rfl⟩
  | reference =>
    obtain ⟨ty, made, rfl⟩ := mappedOk ran
    obtain ⟨language, made⟩ := checkedOk (requireChecks _) made
    obtain ⟨own, made⟩ := checkedOk (ownChecks _) made
    exact ⟨⟨own, List.forall_mem_singleton.mpr language⟩, ty, made, rfl⟩
  | array =>
    obtain ⟨ty, made, rfl⟩ := mappedOk ran
    obtain ⟨own₁, made⟩ := checkedOk (ownChecks _) made
    obtain ⟨own₂, made⟩ := checkedOk (ownEachChecks _) made
    exact ⟨⟨List.forall_mem_append.mpr ⟨own₁, own₂⟩, nofun⟩, ty, made, rfl⟩
  | named =>
    obtain ⟨ty, made, rfl⟩ := mappedOk ran
    obtain ⟨own, made⟩ := checkedOk (ownChecks _) made
    exact ⟨⟨own, nofun⟩, ty, made, rfl⟩

theorem mappedRun {α : Type} {f : α → Answer} {m : Build α} {x : α} (ran : m.run a = .ok x b) :
    (f <$> m).run a = .ok (f x) b := by
  rw [map_eq_pure_bind, EStateM.run_bind, ran]
  rfl

theorem passedRun {α : Type} {m : Build Unit} {f : Unit → Build α} (passed : m.run a = .ok () a) :
    (m >>= f).run a = (f ()).run a := by
  rw [EStateM.run_bind, passed]

theorem requireRun {f : Feature} (same : a.dialect = f.dialect) : (Build.require f).run a = .ok () a := by
  rw [Build.runRequire, if_pos same]

theorem callAdmitted (admits : t.Admits key a) (ran : (t.request key).run a = .ok ty b) :
    (t.call key).perform.run a = .ok (.type ty) b := by
  cases t with
  | raw => exact mappedRun ran
  | pointer | named =>
    have own := admits.own _ (List.mem_singleton_self _)
    exact mappedRun ((passedRun (runOwn own)).trans ran)
  | reference =>
    have language := admits.allowed _ (List.mem_singleton_self _)
    have own := admits.own _ (List.mem_singleton_self _)
    exact mappedRun ((passedRun (requireRun language)).trans ((passedRun (runOwn own)).trans ran))
  | array =>
    have own := List.forall_mem_cons.mp admits.own
    have sizes : (Build.ownEach key.2).run a = .ok () a := by
      refine (Build.runOwnEachIff _ _).mpr fun h mem => ?_
      exact beq_iff_eq.mpr (own.2 h.plain (List.mem_map_of_mem mem))
    exact mappedRun ((passedRun (runOwn own.1)).trans ((passedRun sizes).trans ran))

end Table

def TypeNode.spelling? : TypeNode → Option String
  | raw spelling => some spelling
  | _ => none

/-- At most one type node for each key, recorded under that key exactly if it is there, one `void` at the front, and
the raw types listed by position. -/
structure Arena.HashConsed (a : Arena) : Prop where
  once : ∀ (t : Table) (key : t.Key) (i j : Nat), a.types[i]? = some (t.interning.node key) →
    a.types[j]? = some (t.interning.node key) → i = j
  recorded : ∀ (t : Table) (key : t.Key) (ty : TypeRef), (t.entries a).lookup key = some ty ↔
    ty.arena = a.number ∧ a.types[ty.index]? = some (t.interning.node key)
  void : ∀ i, a.types[i]? = some .void ↔ i = 0
  rawNames : a.rawTypeNames = a.types.toList.filterMap (·.spelling?)

theorem Arena.Consed.hashConsed (consed : a.Consed) : a.HashConsed := by
  have recorded (t : Table) (key : t.Key) (ty : TypeRef) : (t.entries a).lookup key = some ty ↔
      ty.arena = a.number ∧ a.types[ty.index]? = some (t.interning.node key) := by
    rw [consed.lookup, consed.listed, Table.memShared]
  refine ⟨fun t key i j first second => ?_, recorded, consed.void, ?_⟩
  · have atFirst := (recorded t key ⟨a.number, i⟩).mpr ⟨rfl, first⟩
    have atSecond := (recorded t key ⟨a.number, j⟩).mpr ⟨rfl, second⟩
    cases Option.some.inj (atFirst.symm.trans atSecond)
    rfl
  · have listed : a.rawTypeNames = (Table.raw.shared a).map Prod.fst :=
      congrArg (List.map Prod.fst) (consed.listed .raw)
    have spelled : Table.raw.key? = TypeNode.spelling? := by
      funext n
      cases n <;> rfl
    rw [listed, Table.sharedKeys, spelled]
    rfl

theorem recordedLater {t : Table} {key : t.Key} {ty : TypeRef} (change : Change given a b)
    (recorded : (key, ty) ∈ t.entries a ∧ t.Admits key a) : (key, ty) ∈ t.entries b ∧ t.Admits key b := by
  obtain ⟨listed, admits⟩ := recorded
  exact ⟨(change.entries t).subset listed, admits.same change.number change.dialect⟩

theorem stepAgain {σ : Session} {n : Nat} {t : Table} {key : t.Key} {ty : TypeRef} (here : σ.arenas[n]? = some a)
    (consed : a.Consed) (listed : (key, ty) ∈ t.entries a) (admits : t.Admits key a) :
    σ.step n (t.call key) = some (.ok (.type ty), σ) := by
  have ran := Table.callAdmitted admits (Table.requestRepeats consed listed)
  have same : σ.arenas.setIfInBounds n a = σ.arenas := by
    obtain ⟨inside, there⟩ := Array.getElem?_eq_some_iff.mp here
    rw [Array.setIfInBounds_def, dif_pos inside, ← there]
    exact Array.set_getElem_self inside
  unfold Session.step Session.run
  rw [here, Option.map_some, ran]
  dsimp only
  rw [same]

/-- Every arena of every reachable world is hash-consed. At any two points of a run, requests for the types of two
keys give one handle exactly if the keys are equal, and the later of two equal requests changes nothing. -/
theorem sharedTypesUnique {w : World} {n : Nat} (reachable : w.Reachable p) (here : w.session.arenas[n]? = some a) :
    a.HashConsed ∧
      ∀ (t : Table) (key : t.Key) (ty : TypeRef) (σ : Session) (v : World), w.Allows p n (t.call key) →
        w.session.step n (t.call key) = some (.ok (.type ty), σ) →
        World.Run p ⟨σ, w.held ++ [.node .type ty]⟩ v →
        v.session.step n (t.call key) = some (.ok (.type ty), v.session) ∧
          ∀ (key' : t.Key) (ty' : TypeRef) (τ : Session),
            v.session.step n (t.call key') = some (.ok (.type ty'), τ) → (ty = ty' ↔ key = key') := by
  refine ⟨(reachable.consed n a here).hashConsed, ?_⟩
  intro t key ty σ v allowed ran run
  have between : World.Reachable p ⟨σ, w.held ++ [.node .type ty]⟩ := reachable.tail (.call allowed ran)
  obtain ⟨c, b, there, rfl, ends⟩ := Session.stepCases ran
  obtain ⟨admits, _, requested, same⟩ := Table.callRequests ends
  cases same
  have now : (w.session.arenas.setIfInBounds n b)[n]? = some b := by
    have inside := (Array.getElem?_eq_some_iff.mp there).1
    simp [inside]
  obtain ⟨d, later, listed, admits⟩ := World.Run.induct (fun _ => recordedLater) between.sound run now
    (Table.requestRecords admits requested)
  have consed := (between.run run).consed n d later
  refine ⟨stepAgain later consed listed admits, ?_⟩
  intro key' ty' τ again
  obtain ⟨d', e, found, _, ends⟩ := Session.stepCases again
  cases Option.some.inj (later.symm.trans found)
  obtain ⟨admits', _, requested', same⟩ := Table.callRequests ends
  cases same
  obtain ⟨consed', grown⟩ := Table.requestKeeps consed requested'
  exact consed'.sameType (grown.subset listed) (Table.requestRecords admits' requested').1

def World.spelled : World := (empty.grow .cxx).act 0 (.type (.raw "int"))

def World.pointed : World := (spelled.act 0 (.type (.pointer ⟨0, 1⟩))).act 0 (.type (.reference ⟨0, 2⟩))

theorem pointerRequestedAgain :
    ∃ a, World.spelled.session.arenas[0]? = some a ∧ a.HashConsed ∧
      World.pointed.session.step 0 (.type (.pointer ⟨0, 1⟩)) = some (.ok (.type ⟨0, 2⟩), World.pointed.session) := by
  have reachable : World.spelled.Reachable ⟨true, true, true⟩ :=
    (World.Reachable.start.grow .cxx).act (World.allowsHeld nofun rfl (.inl rfl))
  have here : World.spelled.session.arenas[0]? =
      some { Arena.new 0 .cxx with types := #[.void, .raw "int"], interned.raw := [("int", ⟨0, 1⟩)] } := rfl
  obtain ⟨consed, unique⟩ := sharedTypesUnique reachable here
  refine ⟨_, here, consed, ?_⟩
  have first := unique .pointer (⟨0, 1⟩ : TypeRef) ⟨0, 2⟩ _ World.pointed
    (World.allowsHeld (by decide) rfl (.inl rfl)) rfl
  have allowed : (World.spelled.act 0 (.type (.pointer ⟨0, 1⟩))).Allows ⟨true, true, true⟩ 0
      (.type (.reference ⟨0, 2⟩)) := World.allowsHeld (by decide) rfl (.inl rfl)
  exact (first (.single (.call allowed rfl))).1

end CSource
