import CSource.Files.Output

/-!
Looking up paths in a file system that grows. Nothing is ever removed from a directory, and a file stays a file, so a
path that names a file names it for good. A path that named nothing may come to name a file that was there already,
once a directory on its way is made; but only if it goes back up behind that directory.
-/

namespace CSource.Files

namespace FileSystem

def fileAt (fs : FileSystem) (loc : Location) : Option String :=
  match fs.entryAt loc with
  | some (.file content) => some content
  | _ => none

def fileOf (fs : FileSystem) (p : Path) : Option Location :=
  match fs.resolve p with
  | .file loc _ => some loc
  | _ => none

/-- Every directory that is referred to is in the table. -/
structure Linked (fs : FileSystem) : Prop where
  root : fs.root < fs.directories.size
  start : fs.start < fs.directories.size
  parent : ∀ n, n < fs.directories.size → fs.parentOf n < fs.directories.size
  entry : ∀ loc n, fs.entryAt loc = some (.directory n) → n < fs.directories.size

/-- The second file system is a later state of the first. -/
structure Grows (old new : FileSystem) : Prop where
  root : new.root = old.root
  start : new.start = old.start
  size : old.directories.size ≤ new.directories.size
  parent : ∀ n, n < old.directories.size → new.parentOf n = old.parentOf n
  directory : ∀ loc n, old.entryAt loc = some (.directory n) → new.entryAt loc = some (.directory n)
  file : ∀ loc c, old.entryAt loc = some (.file c) → ∃ d, new.entryAt loc = some (.file d)
  fresh : ∀ loc n, new.entryAt loc = some (.directory n) →
    old.entryAt loc = some (.directory n) ∨ old.directories.size ≤ n

theorem Grows.refl (fs : FileSystem) : fs.Grows fs where
  root := rfl
  start := rfl
  size := Nat.le_refl _
  parent _ _ := rfl
  directory _ _ found := found
  file _ c found := ⟨c, found⟩
  fresh _ _ found := .inl found

theorem Grows.trans {first second third : FileSystem} (early : first.Grows second) (late : second.Grows third) :
    first.Grows third where
  root := late.root.trans early.root
  start := late.start.trans early.start
  size := Nat.le_trans early.size late.size
  parent n inside := by
    have later := late.parent n (Nat.lt_of_lt_of_le inside early.size)
    exact later.trans (early.parent n inside)
  directory loc n found := late.directory loc n (early.directory loc n found)
  file loc c found := by
    obtain ⟨d, next⟩ := early.file loc c found
    exact late.file loc d next
  fresh loc n found := by
    rcases late.fresh loc n found with next | beyond
    · exact early.fresh loc n next
    · exact .inr (Nat.le_trans early.size beyond)

section Entries

variable {fs : FileSystem} {loc : Location}

theorem entryBeyond (beyond : fs.directories.size ≤ loc.directory) : fs.entryAt loc = none := by
  simp [entryAt, Array.getElem?_eq_none beyond]

theorem entryInside {entry : FileEntry} (found : fs.entryAt loc = some entry) :
    loc.directory < fs.directories.size := by
  rcases Nat.lt_or_ge loc.directory fs.directories.size with inside | beyond
  · exact inside
  · rw [entryBeyond beyond] at found
    contradiction

theorem fileAtIff {c : String} : fs.fileAt loc = some c ↔ fs.entryAt loc = some (.file c) := by
  unfold fileAt
  constructor
  · intro found
    split at found <;> try contradiction
    rename_i present
    cases Option.some.inj found
    exact present
  · intro found
    rw [found]

theorem fileAtPut (inside : loc.directory < fs.directories.size) (c : String) (other : Location) :
    (fs.put loc (.file c)).fileAt other = if other = loc then some c else fs.fileAt other := by
  unfold fileAt
  rw [fs.entryAtPut inside]
  by_cases same : other = loc
  · rw [if_pos same, if_pos same]
  · rw [if_neg same, if_neg same]

@[simp] theorem sizePut (entry : FileEntry) : (fs.put loc entry).directories.size = fs.directories.size := by
  unfold put
  split <;> simp

@[simp] theorem rootPut (entry : FileEntry) : (fs.put loc entry).root = fs.root := by
  unfold put
  split <;> rfl

@[simp] theorem startPut (entry : FileEntry) : (fs.put loc entry).start = fs.start := by
  unfold put
  split <;> rfl

@[simp] theorem parentPut (entry : FileEntry) (n : Nat) : (fs.put loc entry).parentOf n = fs.parentOf n := by
  unfold put
  split
  · rename_i d found
    unfold parentOf
    by_cases same : loc.directory = n
    · subst same
      have inside := (Array.getElem?_eq_some_iff.mp found).1
      simp [Array.getElem?_setIfInBounds_self_of_lt inside, found]
    · simp [Array.getElem?_setIfInBounds_ne same]
  · rfl

theorem linkedPut (linked : fs.Linked) (inside : loc.directory < fs.directories.size) {entry : FileEntry}
    (listed : ∀ n, entry = .directory n → n < fs.directories.size) : (fs.put loc entry).Linked where
  root := by simpa using linked.root
  start := by simpa using linked.start
  parent n bound := by simpa using linked.parent n (by simpa using bound)
  entry other n found := by
    rw [fs.entryAtPut inside] at found
    rw [sizePut]
    split at found
    · exact listed n (Option.some.inj found)
    · exact linked.entry other n found

theorem growsPut (inside : loc.directory < fs.directories.size) (c : String)
    (free : ∀ n, fs.entryAt loc ≠ some (.directory n)) : fs.Grows (fs.put loc (.file c)) where
  root := rootPut _
  start := startPut _
  size := Nat.le_of_eq (sizePut _).symm
  parent n _ := parentPut _ n
  directory other n found := by
    have apart : other ≠ loc := fun same => free n (same ▸ found)
    rw [fs.entryAtPut inside, if_neg apart]
    exact found
  file other d found := by
    rw [fs.entryAtPut inside]
    split
    · exact ⟨c, rfl⟩
    · exact ⟨d, found⟩
  fresh other n found := by
    rw [fs.entryAtPut inside] at found
    split at found
    · cases Option.some.inj found
    · exact .inl found

def opened (fs : FileSystem) (parent : Nat) : FileSystem :=
  { fs with directories := fs.directories.push ⟨parent, []⟩ }

theorem entryOpened (parent : Nat) : (fs.opened parent).entryAt loc = fs.entryAt loc := by
  unfold opened entryAt
  rw [Array.getElem?_push]
  split
  · rename_i last
    simp [last]
  · rfl

theorem parentOpened {parent n : Nat} (inside : n < fs.directories.size) :
    (fs.opened parent).parentOf n = fs.parentOf n := by
  unfold opened parentOf
  rw [Array.getElem?_push, if_neg (Nat.ne_of_lt inside)]

theorem linkedOpened (linked : fs.Linked) {parent : Nat} (inside : parent < fs.directories.size) :
    (fs.opened parent).Linked where
  root := by simpa [opened] using Nat.lt_succ_of_lt linked.root
  start := by simpa [opened] using Nat.lt_succ_of_lt linked.start
  parent n bound := by
    have size : (fs.opened parent).directories.size = fs.directories.size + 1 := by simp [opened]
    rw [size] at bound ⊢
    by_cases last : n = fs.directories.size
    · subst last
      simp only [opened, parentOf, Array.getElem?_push_size, Option.map_some, Option.getD_some]
      omega
    · rw [parentOpened (by omega)]
      exact Nat.lt_succ_of_lt (linked.parent n (by omega))
  entry other n found := by
    rw [entryOpened] at found
    simpa [opened] using Nat.lt_succ_of_lt (linked.entry other n found)

theorem entryPutDirectory (inside : loc.directory < fs.directories.size) (other : Location) :
    (fs.putDirectory loc).entryAt other =
      if other = loc then some (.directory fs.directories.size) else fs.entryAt other := by
  have within : loc.directory < (fs.opened loc.directory).directories.size := by
    simpa [opened] using Nat.lt_succ_of_lt inside
  have put := (fs.opened loc.directory).entryAtPut within (.directory fs.directories.size) other
  rw [entryOpened] at put
  exact put

theorem fileAtPutDirectory (inside : loc.directory < fs.directories.size) (free : fs.entryAt loc = none)
    (other : Location) : (fs.putDirectory loc).fileAt other = fs.fileAt other := by
  unfold fileAt
  rw [entryPutDirectory inside]
  by_cases same : other = loc
  · subst same
    simp [free]
  · rw [if_neg same]

theorem linkedPutDirectory (linked : fs.Linked) (inside : loc.directory < fs.directories.size) :
    (fs.putDirectory loc).Linked := by
  refine linkedPut (linkedOpened linked inside) (by simpa [opened] using Nat.lt_succ_of_lt inside) ?_
  intro n same
  cases same
  exact Nat.lt_of_lt_of_eq (Nat.lt_succ_self _) (Array.size_push _).symm

theorem growsPutDirectory (inside : loc.directory < fs.directories.size) (free : fs.entryAt loc = none) :
    fs.Grows (fs.putDirectory loc) where
  root := rootPut _
  start := startPut _
  size := by simp [putDirectory]
  parent n bound := (parentPut _ n).trans (parentOpened bound)
  directory other n found := by
    have apart : other ≠ loc := by
      rintro rfl
      rw [free] at found
      contradiction
    rw [entryPutDirectory inside, if_neg apart]
    exact found
  file other c found := by
    have apart : other ≠ loc := by
      rintro rfl
      rw [free] at found
      contradiction
    rw [entryPutDirectory inside, if_neg apart]
    exact ⟨c, found⟩
  fresh other n found := by
    rw [entryPutDirectory inside] at found
    split at found
    · cases Option.some.inj found
      exact .inr (Nat.le_refl _)
    · exact .inl found

end Entries

theorem linkedFresh (height : Nat) : (fresh height).Linked where
  root := by simp [fresh]
  start := by simp [fresh]
  parent n inside := by
    have bound : n < height + 1 := by simpa [fresh] using inside
    simp [fresh, parentOf, bound]
    omega
  entry loc n found := by
    have none : (fresh height).entryAt loc = none := by
      rcases Nat.lt_or_ge loc.directory (height + 1) with inside | beyond
      · simp [fresh, entryAt, inside]
      · exact entryBeyond (by simpa [fresh] using beyond)
    rw [none] at found
    contradiction

def walk (fs : FileSystem) (t : Target) (pieces : List String) : Target := pieces.foldl fs.step t

def enter (fs : FileSystem) (loc : Location) : Target :=
  match fs.entryAt loc with
  | some (.directory inner) => .directory inner
  | some (.file content) => .file loc content
  | none => .vacant loc false

theorem stepDirectory (fs : FileSystem) (n : Nat) (piece : String) :
    fs.step (.directory n) piece =
      if piece = "" ∨ piece = "." then .directory n
      else if piece = ".." then .directory (fs.parentOf n)
      else if Path.nameLimit < piece.utf8ByteSize then .unusable
      else fs.enter ⟨n, piece⟩ := rfl

theorem stepVacant (fs : FileSystem) (loc : Location) (slashed : Bool) (piece : String) :
    fs.step (.vacant loc slashed) piece = if piece = "" then .vacant loc true else .missing := rfl

section Leads

variable {fs : FileSystem}

/-- What a walk has reached is there. -/
def Leads (fs : FileSystem) : Target → Prop
  | .directory n => n < fs.directories.size
  | .file loc c => fs.entryAt loc = some (.file c)
  | .vacant loc _ => loc.directory < fs.directories.size ∧ fs.entryAt loc = none
  | .missing | .blocked | .unusable => True

theorem leadsEnter (linked : fs.Linked) {loc : Location} (inside : loc.directory < fs.directories.size) :
    fs.Leads (fs.enter loc) := by
  unfold enter
  split
  · rename_i inner found
    exact linked.entry loc inner found
  · rename_i found
    exact found
  · rename_i free
    exact ⟨inside, free⟩

theorem leadsStep (linked : fs.Linked) {t : Target} (leads : fs.Leads t) (piece : String) :
    fs.Leads (fs.step t piece) := by
  cases t with
  | directory n =>
    rw [stepDirectory]
    split
    · exact leads
    · split
      · exact linked.parent n leads
      · split
        · trivial
        · exact leadsEnter linked leads
  | vacant loc slashed =>
    rw [stepVacant]
    split
    · exact leads
    · trivial
  | file | missing | blocked | unusable => trivial

theorem leadsWalk (linked : fs.Linked) {t : Target} (leads : fs.Leads t) (pieces : List String) :
    fs.Leads (fs.walk t pieces) := by
  induction pieces generalizing t with
  | nil => exact leads
  | cons piece rest ih => exact ih (leadsStep linked leads piece)

theorem originInside (linked : fs.Linked) (p : Path) : fs.origin p < fs.directories.size := by
  unfold origin
  split
  · exact linked.root
  · exact linked.start

theorem leadsResolve (linked : fs.Linked) (p : Path) : fs.Leads (fs.resolve p) := by
  unfold resolve
  split
  · trivial
  · split
    · exact leadsWalk linked (t := .directory (fs.origin p)) (originInside linked p) p.pieces
    · trivial

theorem fileOfIff {p : Path} {loc : Location} : fs.fileOf p = some loc ↔ ∃ c, fs.resolve p = .file loc c := by
  unfold fileOf
  constructor
  · intro found
    split at found <;> try contradiction
    rename_i c reached
    cases Option.some.inj found
    exact ⟨c, reached⟩
  · intro ⟨c, reached⟩
    rw [reached]

theorem contentOf (linked : fs.Linked) (p : Path) : fs.content? p = (fs.fileOf p).bind fs.fileAt := by
  have leads := leadsResolve linked p
  unfold content? fileOf
  cases reached : fs.resolve p with
  | file loc c =>
    rw [reached] at leads
    exact (fileAtIff.mpr leads).symm
  | directory | vacant | missing | blocked | unusable => rfl

theorem fileOfExists {p : Path} {loc : Location} (found : fs.fileOf p = some loc) : fs.pathExists p = true := by
  obtain ⟨c, reached⟩ := fileOfIff.mp found
  unfold pathExists
  rw [reached]

theorem fileOfHolds (linked : fs.Linked) {p : Path} {loc : Location} (found : fs.fileOf p = some loc) :
    (fs.fileAt loc).isSome = true := by
  obtain ⟨c, reached⟩ := fileOfIff.mp found
  have leads := leadsResolve linked p
  rw [reached] at leads
  rw [fileAtIff.mpr leads]
  rfl

end Leads

section Growth

variable {old new : FileSystem}

def Target.Stays : Target → Target → Prop
  | .directory n, later => later = .directory n
  | .file loc _, later => ∃ c, later = .file loc c
  | .blocked, later => later = .blocked
  | .unusable, later => later = .unusable
  | .vacant _ _, _ | .missing, _ => True

theorem staysEnter (grows : old.Grows new) (loc : Location) : Target.Stays (old.enter loc) (new.enter loc) := by
  unfold enter
  cases found : old.entryAt loc with
  | none => trivial
  | some entry =>
    cases entry with
    | directory inner =>
      rw [grows.directory loc inner found]
      rfl
    | file c =>
      obtain ⟨d, later⟩ := grows.file loc c found
      rw [later]
      exact ⟨d, rfl⟩

theorem staysStep (grows : old.Grows new) {t u : Target} (leads : old.Leads t) (stays : Target.Stays t u)
    (piece : String) : Target.Stays (old.step t piece) (new.step u piece) := by
  cases t with
  | directory n =>
    cases stays
    rw [stepDirectory, stepDirectory, grows.parent n leads]
    split
    · rfl
    · split
      · rfl
      · split
        · rfl
        · exact staysEnter grows ⟨n, piece⟩
  | file loc c =>
    obtain ⟨d, same⟩ := stays
    cases same
    rfl
  | blocked | unusable =>
    cases stays
    rfl
  | vacant loc slashed =>
    rw [stepVacant]
    split <;> trivial
  | missing => trivial

theorem staysWalk (linked : old.Linked) (grows : old.Grows new) {t u : Target} (leads : old.Leads t)
    (stays : Target.Stays t u) (pieces : List String) : Target.Stays (old.walk t pieces) (new.walk u pieces) := by
  induction pieces generalizing t u with
  | nil => exact stays
  | cons piece rest ih => exact ih (leadsStep linked leads piece) (staysStep grows leads stays piece)

theorem Grows.origin (grows : old.Grows new) (p : Path) : new.origin p = old.origin p := by
  unfold FileSystem.origin
  rw [grows.root, grows.start]

theorem staysResolve (linked : old.Linked) (grows : old.Grows new) (p : Path) :
    Target.Stays (old.resolve p) (new.resolve p) := by
  unfold resolve
  split
  · trivial
  · split
    · rw [grows.origin p]
      exact staysWalk linked grows (t := .directory (old.origin p)) (originInside linked p) rfl p.pieces
    · rfl

theorem fileOfStays (linked : old.Linked) (grows : old.Grows new) {p : Path} {loc : Location}
    (found : old.fileOf p = some loc) : new.fileOf p = some loc := by
  obtain ⟨c, reached⟩ := fileOfIff.mp found
  have stays := staysResolve linked grows p
  rw [reached] at stays
  exact fileOfIff.mpr stays

/-- A walk that does not go back up is where it was, or at something that was not there. -/
def Target.Arrives (old : FileSystem) (before : Target) : Target → Prop
  | .directory n => before = .directory n ∨ old.directories.size ≤ n
  | .file loc _ => (∃ c, before = .file loc c) ∨ old.fileAt loc = none
  | .vacant _ _ | .missing | .blocked | .unusable => True

theorem arrivesEnter (grows : old.Grows new) (loc : Location) :
    Target.Arrives old (old.enter loc) (new.enter loc) := by
  unfold enter
  cases later : new.entryAt loc with
  | none => trivial
  | some entry =>
    cases entry with
    | directory inner =>
      rcases grows.fresh loc inner later with found | beyond
      · rw [found]
        exact .inl rfl
      · exact .inr beyond
    | file d =>
      cases found : old.entryAt loc with
      | none =>
        right
        unfold fileAt
        rw [found]
      | some earlier =>
        cases earlier with
        | directory inner =>
          have kept := grows.directory loc inner found
          rw [later] at kept
          cases Option.some.inj kept
        | file c => exact .inl ⟨c, rfl⟩

theorem arrivesBelow (grows : old.Grows new) {loc : Location} (beyond : old.directories.size ≤ loc.directory)
    (t : Target) : Target.Arrives old t (new.enter loc) := by
  have none := entryBeyond beyond
  unfold enter
  split
  · rename_i inner later
    rcases grows.fresh loc inner later with found | outside
    · rw [none] at found
      contradiction
    · exact .inr outside
  · right
    unfold fileAt
    rw [none]
  · trivial

theorem arrivesStep (grows : old.Grows new) {t u : Target} (arrives : Target.Arrives old t u) {piece : String}
    (below : piece ≠ "..") : Target.Arrives old (old.step t piece) (new.step u piece) := by
  cases u with
  | directory n =>
    rcases arrives with same | beyond
    · subst same
      rw [stepDirectory, stepDirectory, if_neg below, if_neg below]
      split
      · exact .inl rfl
      · split
        · trivial
        · exact arrivesEnter grows ⟨n, piece⟩
    · rw [stepDirectory, if_neg below]
      split
      · exact .inr beyond
      · split
        · trivial
        · exact arrivesBelow grows beyond _
  | vacant loc slashed =>
    rw [stepVacant]
    split <;> trivial
  | file | missing | blocked | unusable => trivial

theorem arrivesWalk (grows : old.Grows new) {t u : Target} (arrives : Target.Arrives old t u) {pieces : List String}
    (below : ".." ∉ pieces) : Target.Arrives old (old.walk t pieces) (new.walk u pieces) := by
  induction pieces generalizing t u with
  | nil => exact arrives
  | cons piece rest ih =>
    have here : piece ≠ ".." := fun same => below (same ▸ List.mem_cons_self)
    exact ih (arrivesStep grows arrives here) fun later => below (List.mem_cons_of_mem piece later)

theorem fileOfArrives (grows : old.Grows new) {p : Path} (below : ".." ∉ p.pieces) {loc : Location}
    (found : new.fileOf p = some loc) : old.fileOf p = some loc ∨ old.fileAt loc = none := by
  obtain ⟨c, reached⟩ := fileOfIff.mp found
  unfold resolve at reached
  split at reached <;> try contradiction
  rename_i filled
  split at reached <;> try contradiction
  rename_i usable
  rw [grows.origin p] at reached
  have start : Target.Arrives old (.directory (old.origin p)) (.directory (old.origin p)) := .inl rfl
  have arrives := arrivesWalk grows start below
  unfold walk at arrives
  rw [reached] at arrives
  rcases arrives with ⟨d, before⟩ | absent
  · have led : old.resolve p = .file loc d := by
      unfold resolve
      rw [if_neg filled, if_pos usable]
      exact before
    exact .inl (fileOfIff.mpr ⟨d, led⟩)
  · exact .inr absent

end Growth

section Stores

variable {fs : FileSystem} {loc : Location}

theorem vacantLast {t : Target} {pieces : List String} (reached : fs.walk t pieces = .vacant loc false)
    (start : t ≠ .vacant loc false) :
    ∃ above n last, pieces = above ++ [last] ∧ fs.walk t above = .directory n ∧
      fs.step (.directory n) last = .vacant loc false := by
  rcases List.eq_nil_or_concat pieces with empty | ⟨above, last, split⟩
  · subst empty
    exact absurd reached start
  · subst split
    have stepped : fs.step (fs.walk t above) last = .vacant loc false := by
      simpa [walk] using reached
    cases top : fs.walk t above with
    | directory n => exact ⟨above, n, last, List.concat_eq_append, top, top ▸ stepped⟩
    | vacant free slashed =>
      rw [top, stepVacant] at stepped
      split at stepped
      · cases stepped
      · cases stepped
    | file | missing | blocked | unusable =>
      rw [top] at stepped
      cases stepped

theorem stepFree {n : Nat} {last : String} (stepped : fs.step (.directory n) last = .vacant loc false)
    (other : FileSystem) : other.step (.directory n) last = other.enter loc := by
  rw [stepDirectory] at stepped ⊢
  split at stepped
  · cases stepped
  · rename_i named
    split at stepped
    · cases stepped
    · rename_i below
      split at stepped
      · cases stepped
      · rename_i short
        have here : loc = ⟨n, last⟩ := by
          unfold enter at stepped
          split at stepped <;> cases stepped
          rfl
        rw [if_neg named, if_neg below, if_neg short, here]

theorem fileOfPut (linked : fs.Linked) {p : Path} (reached : fs.resolve p = .vacant loc false) (c : String) :
    (fs.put loc (.file c)).fileOf p = some loc := by
  have leads := leadsResolve linked p
  rw [reached] at leads
  obtain ⟨inside, free⟩ := leads
  have grows := growsPut inside c (fun n found => by rw [free] at found; contradiction)
  unfold resolve at reached
  split at reached <;> try contradiction
  rename_i filled
  split at reached <;> try contradiction
  rename_i usable
  obtain ⟨above, n, last, split, top, stepped⟩ := vacantLast reached (fun same => by cases same)
  have kept := staysWalk linked grows (t := .directory (fs.origin p)) (originInside linked p) rfl above
  rw [top] at kept
  have reach : List.foldl (fs.put loc (.file c)).step (.directory (fs.origin p)) above = .directory n := kept
  have entered : (fs.put loc (.file c)).enter loc = .file loc c := by
    unfold enter
    rw [fs.entryAtPut inside, if_pos rfl]
  have led : (fs.put loc (.file c)).resolve p = .file loc c := by
    unfold resolve
    rw [if_neg filled, if_pos usable, grows.origin p, split, List.foldl_append, reach]
    exact (stepFree stepped _).trans entered
  exact fileOfIff.mpr ⟨c, led⟩

end Stores

end FileSystem

end CSource.Files
