import CSource.Proofs.Lookup
import CSource.SourceUnit
import Mathlib.Data.List.Basic

/-!
What a sequence of writes leaves in each file. A file that is there survives a write that is for missing files only,
unless the write does not learn of it. That happens if the system does not answer whether the path exists, which counts
as no; and if the path goes back up behind a directory that is itself missing, since the question is asked before that
directory is made.
-/

namespace CSource.Files

namespace FileSystem

/-- The second state has more directories, and nothing else. -/
inductive Furnished (fs : FileSystem) : FileSystem → Prop where
  | same : fs.Furnished fs
  | more {mid : FileSystem} {loc : Location} (earlier : fs.Furnished mid)
      (inside : loc.directory < mid.directories.size) (free : mid.entryAt loc = none) :
      fs.Furnished (mid.putDirectory loc)

theorem Furnished.trans {first second third : FileSystem} (early : first.Furnished second)
    (late : second.Furnished third) : first.Furnished third := by
  induction late with
  | same => exact early
  | more _ inside free ih => exact .more ih inside free

theorem Furnished.linked {fs after : FileSystem} (furnished : fs.Furnished after) (linked : fs.Linked) :
    after.Linked := by
  induction furnished with
  | same => exact linked
  | more _ inside _ ih => exact linkedPutDirectory ih inside

theorem Furnished.grows {fs after : FileSystem} (furnished : fs.Furnished after) : fs.Grows after := by
  induction furnished with
  | same => exact .refl fs
  | more _ inside free ih => exact ih.trans (growsPutDirectory inside free)

theorem Furnished.fileAt {fs after : FileSystem} (furnished : fs.Furnished after) (loc : Location) :
    after.fileAt loc = fs.fileAt loc := by
  induction furnished with
  | same => rfl
  | more _ inside free ih => rw [fileAtPutDirectory inside free, ih]

theorem ensureDirectoryFurnishes {fs : FileSystem} (linked : fs.Linked) (p : Path) :
    fs.Furnished (fs.ensureDirectory p).2 := by
  have leads := leadsResolve linked p
  unfold ensureDirectory makeDirectory
  cases reached : fs.resolve p with
  | vacant loc slashed =>
    rw [reached] at leads
    exact .more .same leads.1 leads.2
  | directory | file | missing | blocked | unusable => exact .same

theorem makeDirectoriesWithinFurnishes {fs : FileSystem} (linked : fs.Linked) (depth : Nat) (p : Path) :
    fs.Furnished (makeDirectoriesWithin depth fs p).2 := by
  induction depth generalizing p with
  | zero => exact .same
  | succ depth ih =>
    unfold makeDirectoriesWithin
    split
    · exact .same
    · split
      · have above := ih p.parent
        split
        · rename_i mid made
          rw [made] at above
          exact above.trans (ensureDirectoryFurnishes (above.linked linked) p)
        · rename_i mid made
          rw [made] at above
          exact above
      · exact ensureDirectoryFurnishes linked p

theorem makeDirectoriesFurnishes {fs : FileSystem} (linked : fs.Linked) (p : Path) :
    fs.Furnished (fs.makeDirectories p).2 :=
  makeDirectoriesWithinFurnishes linked _ p

structure Stores (fs : FileSystem) (p : Path) (text : String) (loc : Location) (after : FileSystem) : Prop where
  inside : loc.directory < fs.directories.size
  free : ∀ n, fs.entryAt loc ≠ some (.directory n)
  put : after = fs.put loc (.file text)
  named : after.fileOf p = some loc
  was : fs.fileOf p = some loc ∨ fs.fileAt loc = none

theorem storeStores {fs after : FileSystem} (linked : fs.Linked) {p : Path} {text : String}
    (stored : fs.store p text = some after) : ∃ loc, fs.Stores p text loc after := by
  have leads := leadsResolve linked p
  unfold store at stored
  split at stored <;> try contradiction
  · rename_i loc c reached
    cases Option.some.inj stored
    rw [reached] at leads
    have free : ∀ n, fs.entryAt loc ≠ some (.directory n) := by
      intro n found
      rw [leads] at found
      cases Option.some.inj found
    have inside := entryInside leads
    have found := fileOfIff.mpr ⟨c, reached⟩
    exact ⟨loc, inside, free, rfl, fileOfStays linked (growsPut inside text free) found, .inl found⟩
  · rename_i loc reached
    cases Option.some.inj stored
    rw [reached] at leads
    have free : ∀ n, fs.entryAt loc ≠ some (.directory n) := by
      intro n found
      rw [leads.2] at found
      contradiction
    have absent : fs.fileAt loc = none := by
      unfold FileSystem.fileAt
      rw [leads.2]
    exact ⟨loc, leads.1, free, rfl, fileOfPut linked reached text, .inr absent⟩

theorem storeFound {fs : FileSystem} {p : Path} {loc : Location} (found : fs.fileOf p = some loc) (text : String) :
    fs.store p text = some (fs.put loc (.file text)) := by
  obtain ⟨c, reached⟩ := fileOfIff.mp found
  unfold store
  rw [reached]

section Stores

variable {fs after : FileSystem} {p : Path} {text : String} {loc : Location}

theorem Stores.linked (stores : fs.Stores p text loc after) (linked : fs.Linked) : after.Linked := by
  rw [stores.put]
  exact linkedPut linked stores.inside (fun n same => by cases same)

theorem Stores.grows (stores : fs.Stores p text loc after) : fs.Grows after := by
  rw [stores.put]
  exact growsPut stores.inside text stores.free

theorem Stores.fileAt (stores : fs.Stores p text loc after) (other : Location) :
    after.fileAt other = if other = loc then some text else fs.fileAt other := by
  rw [stores.put]
  exact fileAtPut stores.inside text other

end Stores

/-- A call does not learn that a path exists, and finds a file at its end once the directories on the way are made. -/
def Misses (fs : FileSystem) (answered : Bool) (p : Path) (loc : Location) : Prop :=
  (answered && fs.pathExists p) = false ∧
    ∃ mid, fs.makeDirectories p.parent = (true, mid) ∧ mid.fileOf p = some loc

/-- Where the question was answered, the path goes back up. -/
theorem missesBehind {fs : FileSystem} (linked : fs.Linked) {p : Path} {loc : Location} (misses : fs.Misses true p loc) :
    ".." ∈ p.pieces := by
  obtain ⟨unseen, mid, made, found⟩ := misses
  have absent : fs.pathExists p = false := unseen
  have furnished := makeDirectoriesFurnishes linked p.parent
  rw [made] at furnished
  by_cases behind : ".." ∈ p.pieces
  · exact behind
  · rcases fileOfArrives furnished.grows behind found with before | none
    · rw [fileOfExists before] at absent
      contradiction
    · have held := fileOfHolds (furnished.linked linked) found
      rw [furnished.fileAt, none] at held
      contradiction

end FileSystem

namespace OutputFile

structure Writes (f : OutputFile) (fs mid : FileSystem) (loc : Location) (after : FileSystem) : Prop where
  made : fs.makeDirectories f.path.parent = (true, mid)
  furnished : fs.Furnished mid
  stores : mid.Stores f.path f.render loc after

section Writes

variable {f : OutputFile} {fs mid after : FileSystem} {loc : Location} {answered : Bool}

theorem Writes.linked (writes : f.Writes fs mid loc after) (linked : fs.Linked) : after.Linked :=
  writes.stores.linked (writes.furnished.linked linked)

theorem Writes.grows (writes : f.Writes fs mid loc after) : fs.Grows after :=
  writes.furnished.grows.trans writes.stores.grows

theorem Writes.fileAt (writes : f.Writes fs mid loc after) (other : Location) :
    after.fileAt other = if other = loc then some f.render else fs.fileAt other := by
  rw [writes.stores.fileAt, writes.furnished.fileAt]

theorem putCases (linked : fs.Linked) :
    (∃ mid loc after, f.put fs = (.written, after) ∧ f.Writes fs mid loc after) ∨
      ∃ cause after, f.put fs = (.failed cause, after) ∧ fs.Furnished after := by
  have furnished := FileSystem.makeDirectoriesFurnishes linked f.path.parent
  unfold put
  split
  · rename_i mid made
    rw [made] at furnished
    exact .inr ⟨_, mid, rfl, furnished⟩
  · rename_i mid made
    rw [made] at furnished
    split
    · rename_i after stored
      obtain ⟨loc, stores⟩ := FileSystem.storeStores (furnished.linked linked) stored
      exact .inl ⟨mid, loc, after, rfl, made, furnished, stores⟩
    · exact .inr ⟨_, mid, rfl, furnished⟩

def Leaves (f : OutputFile) (answered : Bool) (fs : FileSystem) : Prop :=
  f.rules.overwrite = .ifMissing ∧ (answered && fs.pathExists f.path) = true

theorem writeLeft (leaves : f.Leaves answered fs) : f.writeAsking answered fs = (.skipped, fs) := if_pos leaves

theorem writePut (acts : ¬f.Leaves answered fs) : f.writeAsking answered fs = f.put fs := if_neg acts

theorem overwritesIff (linked : fs.Linked) (careful : f.rules.overwrite = .ifMissing) :
    (∃ after, f.writeAsking answered fs = (.written, after) ∧ after.fileOf f.path = some loc ∧
      (fs.fileAt loc).isSome = true) ↔ fs.Misses answered f.path loc := by
  constructor
  · intro ⟨after, wrote, named, held⟩
    have acts : ¬f.Leaves answered fs := by
      intro leaves
      rw [writeLeft leaves] at wrote
      cases wrote
    rw [writePut acts] at wrote
    rcases putCases linked (f := f) with ⟨mid, other, later, put, writes⟩ | ⟨cause, later, put, _⟩
    · rw [put] at wrote
      cases wrote
      rw [writes.stores.named] at named
      cases Option.some.inj named
      have absent : (answered && fs.pathExists f.path) = false := by
        cases asked : answered && fs.pathExists f.path with
        | false => rfl
        | true => exact absurd ⟨careful, asked⟩ acts
      rcases writes.stores.was with found | none
      · exact ⟨absent, mid, writes.made, found⟩
      · rw [writes.furnished.fileAt] at none
        rw [none] at held
        contradiction
    · rw [put] at wrote
      cases wrote
  · intro ⟨absent, mid, made, found⟩
    have furnished := FileSystem.makeDirectoriesFurnishes linked f.path.parent
    rw [made] at furnished
    have acts : ¬f.Leaves answered fs := by
      intro leaves
      rw [leaves.2] at absent
      contradiction
    have stored := FileSystem.storeFound found f.render
    obtain ⟨other, stores⟩ := FileSystem.storeStores (furnished.linked linked) stored
    have later := FileSystem.fileOfStays (furnished.linked linked) stores.grows found
    have held := FileSystem.fileOfHolds (furnished.linked linked) found
    rw [furnished.fileAt] at held
    have wrote : f.writeAsking answered fs = (.written, mid.put loc (.file f.render)) := by
      rw [writePut acts]
      unfold put
      rw [made]
      simp only [stored]
    exact ⟨_, wrote, later, held⟩

end Writes

end OutputFile

inductive WriteCall where
  | file (f : OutputFile)
  | unit (a : Arena) (u : SourceUnit) (path : Path) (rules : WriteRules)

namespace WriteCall

/-- What the call does; `answered` says whether the system answers if the path exists. -/
def run (answered : Bool) (fs : FileSystem) : WriteCall → Except Misuse (WriteOutcome × FileSystem)
  | file f => .ok (f.writeAsking answered fs)
  | unit a u path rules => u.writeAsking a path rules answered fs

def output : WriteCall → Except Misuse OutputFile
  | file f => .ok f
  | unit a u path rules => (u.render a).map fun text => ⟨path, text, rules⟩

theorem runOutput (c : WriteCall) (answered : Bool) (fs : FileSystem) :
    c.run answered fs = c.output.map (·.writeAsking answered fs) := by
  cases c with
  | file f => rfl
  | unit a u path rules =>
    simp only [run, output, SourceUnit.writeAsking, SourceUnit.toFile]
    cases u.render a <;> rfl

end WriteCall

/-- One call: the files before, whether the system answers if the path exists, what the call answers, and the files
after. -/
structure Event where
  before : FileSystem
  call : WriteCall
  answered : Bool
  result : Except Misuse WriteOutcome
  after : FileSystem

namespace Event

/-- What can happen. The question whether the path exists may go unanswered, and a write that is attempted may be
hindered, at any time and for reasons of the system's own. A hindered write may have made directories by then. -/
inductive Happens : Event → Prop where
  | done {before after : FileSystem} {call : WriteCall} {answered : Bool} {outcome : WriteOutcome}
      (ran : call.run answered before = .ok (outcome, after)) : Happens ⟨before, call, answered, .ok outcome, after⟩
  | refused {before : FileSystem} {call : WriteCall} {answered : Bool} {m : Misuse}
      (ran : call.run answered before = .error m) : Happens ⟨before, call, answered, .error m, before⟩
  | hindered {before after : FileSystem} {call : WriteCall} {answered : Bool} {f : OutputFile} (cause : WriteError)
      (attempt : call.output = .ok f) (acts : ¬f.Leaves answered before) (furnished : before.Furnished after) :
      Happens ⟨before, call, answered, .ok (.failed cause), after⟩

section Effect

variable {e : Event}

theorem Happens.effect (happens : e.Happens) (linked : e.before.Linked) :
    (∃ f mid loc, e.call.output = .ok f ∧ e.result = .ok .written ∧ ¬f.Leaves e.answered e.before ∧
        f.writeAsking e.answered e.before = (.written, e.after) ∧ f.Writes e.before mid loc e.after) ∨
      (e.result ≠ .ok .written ∧ e.before.Furnished e.after) := by
  cases happens with
  | done ran =>
    rename_i before after call answered outcome
    rw [WriteCall.runOutput] at ran
    cases made : call.output with
    | error m =>
      rw [made] at ran
      cases ran
    | ok f =>
      rw [made] at ran
      have wrote : f.writeAsking answered before = (outcome, after) := Except.ok.inj ran
      by_cases leaves : f.Leaves answered before
      · rw [OutputFile.writeLeft leaves] at wrote
        cases wrote
        exact .inr ⟨(nomatch ·), .same⟩
      · have put := wrote
        rw [OutputFile.writePut leaves] at put
        rcases OutputFile.putCases linked (f := f) with ⟨mid, loc, later, did, writes⟩ | ⟨cause, later, did, kept⟩
        · rw [did] at put
          cases put
          exact .inl ⟨f, mid, loc, rfl, rfl, leaves, wrote, writes⟩
        · rw [did] at put
          cases put
          exact .inr ⟨(nomatch ·), kept⟩
  | refused => exact .inr ⟨(nomatch ·), .same⟩
  | hindered _ _ _ furnished => exact .inr ⟨(nomatch ·), furnished⟩

theorem Happens.linked (happens : e.Happens) (linked : e.before.Linked) : e.after.Linked := by
  rcases happens.effect linked with ⟨f, mid, loc, _, _, _, _, writes⟩ | ⟨_, furnished⟩
  · exact writes.linked linked
  · exact furnished.linked linked

theorem Happens.grows (happens : e.Happens) (linked : e.before.Linked) : e.before.Grows e.after := by
  rcases happens.effect linked with ⟨f, mid, loc, _, _, _, _, writes⟩ | ⟨_, furnished⟩
  · exact writes.grows
  · exact furnished.grows

/-- A careful call that learns that its path exists leaves it alone; a call that has written leaves its text there and
all other files as they were; and any other call leaves all of them. -/
structure Sound (e : Event) : Prop where
  skips : ∀ f, e.call.output = .ok f → f.rules.overwrite = .ifMissing → e.answered = true →
    e.before.pathExists f.path = true → e.result = .ok .skipped ∧ e.after = e.before
  writes : e.result = .ok .written → ∃ f loc, e.call.output = .ok f ∧ e.after.fileOf f.path = some loc ∧
    e.after.content? f.path = some (f.rules.header.getD "" ++ f.content) ∧
    ∀ other, other ≠ loc → e.after.fileAt other = e.before.fileAt other
  keeps : e.result ≠ .ok .written → ∀ loc, e.after.fileAt loc = e.before.fileAt loc

theorem Happens.sound (happens : e.Happens) (linked : e.before.Linked) : e.Sound where
  skips f made careful answered present := by
    have leaves : f.Leaves e.answered e.before := ⟨careful, by rw [answered, present]; rfl⟩
    cases happens with
    | done ran =>
      rw [WriteCall.runOutput, made] at ran
      have left := (OutputFile.writeLeft leaves).symm.trans (Except.ok.inj ran)
      obtain ⟨outcome, after⟩ := Prod.mk.inj left
      exact ⟨congrArg Except.ok outcome.symm, after.symm⟩
    | refused ran =>
      rw [WriteCall.runOutput, made] at ran
      cases ran
    | hindered cause attempt acts =>
      rw [attempt] at made
      cases made
      exact absurd leaves acts
  writes wrote := by
    rcases happens.effect linked with ⟨f, mid, loc, made, _, _, _, writes⟩ | ⟨not, _⟩
    · have named := writes.stores.named
      have text : e.after.content? f.path = some f.render := by
        rw [FileSystem.contentOf (writes.linked linked), named, Option.bind_some, writes.fileAt, if_pos rfl]
      have others : ∀ other, other ≠ loc → e.after.fileAt other = e.before.fileAt other := by
        intro other apart
        rw [writes.fileAt, if_neg apart]
      exact ⟨f, loc, made, named, text, others⟩
    · exact absurd wrote not
  keeps not := by
    rcases happens.effect linked with ⟨f, mid, loc, _, wrote, _⟩ | ⟨_, furnished⟩
    · exact absurd wrote not
    · exact furnished.fileAt

end Effect

def put (loc : Location) (e : Event) : Option OutputFile :=
  match e.call.output, e.result with
  | .ok f, .ok .written => if e.after.fileOf f.path = some loc then some f else none
  | _, _ => none

/-- What a call has written to a file that it was to overwrite, or that was there. -/
def replaces (loc : Location) (e : Event) : Option String :=
  (e.put loc).bind fun f =>
    if f.rules.overwrite = .always ∨ (e.before.fileAt loc).isSome then some f.render else none

/-- What a call has written to a file that it was to create, and that was missing. -/
def creates (loc : Location) (e : Event) : Option String :=
  (e.put loc).bind fun f =>
    if f.rules.overwrite = .ifMissing ∧ e.before.fileAt loc = none then some f.render else none

/-- What a call has written, under a rule, to the file that a path names. -/
def wrote (rule : Overwrite) (p : Path) (e : Event) : Option String :=
  match e.call.output, e.result with
  | .ok f, .ok .written =>
    if f.rules.overwrite = rule ∧ e.after.fileOf f.path = e.after.fileOf p then some f.render else none
  | _, _ => none

section Settling

variable {e : Event} {loc : Location}

theorem putWritten {f : OutputFile} (put : e.put loc = some f) :
    e.call.output = .ok f ∧ e.result = .ok .written ∧ e.after.fileOf f.path = some loc := by
  unfold Event.put at put
  split at put <;> try contradiction
  rename_i g made wrote
  split at put <;> try contradiction
  rename_i named
  cases Option.some.inj put
  exact ⟨made, wrote, named⟩

theorem Happens.settles (happens : e.Happens) (linked : e.before.Linked) (loc : Location) :
    e.after.fileAt loc = ((e.replaces loc).or (e.before.fileAt loc)).or (e.creates loc) := by
  cases put : e.put loc with
  | none =>
    have kept : e.after.fileAt loc = e.before.fileAt loc := by
      rcases happens.effect linked with ⟨f, mid, other, made, wrote, _, _, writes⟩ | ⟨_, furnished⟩
      · have apart : loc ≠ other := by
          intro same
          subst same
          unfold Event.put at put
          rw [made, wrote] at put
          simp only [if_pos writes.stores.named] at put
          contradiction
        rw [writes.fileAt, if_neg apart]
      · exact furnished.fileAt loc
    unfold replaces creates
    rw [put, kept]
    simp
  | some f =>
    obtain ⟨made, wrote, named⟩ := putWritten put
    have text : e.after.fileAt loc = some f.render := by
      rcases happens.effect linked with ⟨g, mid, other, output, _, _, _, writes⟩ | ⟨not, _⟩
      · rw [made] at output
        cases output
        rw [writes.stores.named] at named
        cases Option.some.inj named
        rw [writes.fileAt, if_pos rfl]
      · exact absurd wrote not
    unfold replaces creates
    rw [put, text]
    cases rule : f.rules.overwrite with
    | always => simp [rule]
    | ifMissing =>
      cases held : e.before.fileAt loc with
      | none => simp [rule]
      | some c => simp

end Settling

end Event

inductive Run : FileSystem → List Event → FileSystem → Prop where
  | nil (fs : FileSystem) : Run fs [] fs
  | cons {e : Event} {es : List Event} {last : FileSystem} (happens : e.Happens) (rest : Run e.after es last) :
      Run e.before (e :: es) last

namespace Run

variable {first last : FileSystem} {es : List Event}

theorem linked (run : Run first es last) (linked : first.Linked) : last.Linked := by
  induction run with
  | nil => exact linked
  | cons happens _ ih => exact ih (happens.linked linked)

theorem grows (run : Run first es last) (linked : first.Linked) : first.Grows last := by
  induction run with
  | nil fs => exact .refl fs
  | cons happens _ ih => exact (happens.grows linked).trans (ih (happens.linked linked))

theorem split (run : Run first es last) (linked : first.Linked) {e : Event} (mem : e ∈ es) :
    e.Happens ∧ e.before.Linked ∧ first.Grows e.before ∧ e.after.Grows last := by
  induction run with
  | nil => contradiction
  | cons happens rest ih =>
    rcases List.mem_cons.mp mem with same | later
    · subst same
      exact ⟨happens, linked, .refl _, rest.grows (happens.linked linked)⟩
    · obtain ⟨did, ready, early, late⟩ := ih (happens.linked linked) later
      exact ⟨did, ready, (happens.grows linked).trans early, late⟩

/-- The last text that replaces a file stays; without one, the file keeps what it held, and a file that was missing
keeps the first text that it was created with. -/
theorem settles (run : Run first es last) (linked : first.Linked) (loc : Location) :
    last.fileAt loc =
      ((es.filterMap (Event.replaces loc)).getLast?.or (first.fileAt loc)).or
        (es.filterMap (Event.creates loc)).head? := by
  induction run with
  | nil => simp
  | @cons e es last happens rest ih =>
    rw [ih (happens.linked linked), happens.settles linked loc]
    cases replaced : e.replaces loc with
    | none =>
      rw [List.filterMap_cons_none replaced]
      cases created : e.creates loc with
      | none => simp [List.filterMap_cons_none created]
      | some text => simp [List.filterMap_cons_some created]
    | some text =>
      rw [List.filterMap_cons_some replaced]
      simp [List.getLast?_cons]

section Paths

variable {p : Path}

theorem namedAt (run : Run first es last) (linked : first.Linked) {e : Event} (mem : e ∈ es)
    (plain : ".." ∉ p.pieces ∨ (first.content? p).isSome = true) {loc : Location}
    (found : last.fileOf p = some loc) (held : (e.after.fileAt loc).isSome = true) : e.after.fileOf p = some loc := by
  obtain ⟨happens, ready, early, late⟩ := run.split linked mem
  rcases plain with below | present
  · rcases FileSystem.fileOfArrives late below found with named | absent
    · exact named
    · rw [absent] at held
      contradiction
  · rw [FileSystem.contentOf linked] at present
    cases start : first.fileOf p with
    | none =>
      rw [start] at present
      contradiction
    | some other =>
      have named := FileSystem.fileOfStays linked (early.trans (happens.grows ready)) start
      have same := FileSystem.fileOfStays (happens.linked ready) late named
      rw [found] at same
      cases same
      exact named

theorem contentFirst (run : Run first es last) (linked : first.Linked)
    (plain : ".." ∉ p.pieces ∨ (first.content? p).isSome = true) {loc : Location}
    (found : last.fileOf p = some loc) : first.content? p = first.fileAt loc := by
  rw [FileSystem.contentOf linked]
  cases start : first.fileOf p with
  | some other =>
    have same := FileSystem.fileOfStays linked (run.grows linked) start
    rw [found] at same
    cases same
    rfl
  | none =>
    rcases plain with below | present
    · rcases FileSystem.fileOfArrives (run.grows linked) below found with named | absent
      · rw [start] at named
        contradiction
      · rw [absent]
        rfl
    · rw [FileSystem.contentOf linked, start] at present
      contradiction

theorem wroteAt (run : Run first es last) (linked : first.Linked)
    (plain : ".." ∉ p.pieces ∨ (first.content? p).isSome = true) {loc : Location} (found : last.fileOf p = some loc)
    {e : Event} (mem : e ∈ es) (rule : Overwrite) :
    e.wrote rule p = (e.put loc).bind fun f => if f.rules.overwrite = rule then some f.render else none := by
  obtain ⟨happens, ready, _, late⟩ := run.split linked mem
  unfold Event.wrote Event.put
  split
  · rename_i f made wrote
    rcases happens.effect ready with ⟨g, mid, other, output, _, _, _, writes⟩ | ⟨not, _⟩
    · rw [made] at output
      cases output
      have named := writes.stores.named
      have settled := happens.linked ready
      rw [named]
      by_cases here : other = loc
      · subst here
        have held := FileSystem.fileOfHolds settled named
        rw [run.namedAt linked mem plain found held]
        simp
      · have apart : some other ≠ e.after.fileOf p := by
          intro same
          have later := FileSystem.fileOfStays settled late same.symm
          rw [found] at later
          exact here (Option.some.inj later).symm
        simp [here, apart]
    · exact absurd wrote not
  · rfl

theorem wroteNothing (run : Run first es last) (linked : first.Linked) (nothing : last.fileOf p = none) {e : Event}
    (mem : e ∈ es) (rule : Overwrite) : e.wrote rule p = none := by
  obtain ⟨happens, ready, _, late⟩ := run.split linked mem
  unfold Event.wrote
  split
  · rename_i f made wrote
    rcases happens.effect ready with ⟨g, mid, other, output, _, _, _, writes⟩ | ⟨not, _⟩
    · rw [made] at output
      cases output
      have apart : some other ≠ e.after.fileOf p := by
        intro same
        have later := FileSystem.fileOfStays (happens.linked ready) late same.symm
        rw [nothing] at later
        contradiction
      rw [writes.stores.named]
      simp [apart]
    · exact absurd wrote not
  · rfl

def Careful (es : List Event) : Prop :=
  ∀ e ∈ es, ∀ f, e.call.output = .ok f → f.rules.overwrite = .ifMissing →
    ∀ loc, ¬e.before.Misses e.answered f.path loc

theorem missingAt (run : Run first es last) (linked : first.Linked) (careful : Careful es) {e : Event} (mem : e ∈ es)
    {f : OutputFile} {loc : Location} (put : e.put loc = some f) (rule : f.rules.overwrite = .ifMissing) :
    e.before.fileAt loc = none := by
  obtain ⟨happens, ready, _, _⟩ := run.split linked mem
  obtain ⟨made, wrote, named⟩ := Event.putWritten put
  rcases happens.effect ready with ⟨g, mid, other, output, _, _, did, _⟩ | ⟨not, _⟩
  · rw [made] at output
    cases output
    cases held : e.before.fileAt loc with
    | none => rfl
    | some c =>
      have hidden := (OutputFile.overwritesIff ready rule).mp ⟨e.after, did, named, by rw [held]; rfl⟩
      exact absurd hidden (careful e mem f made rule loc)
  · exact absurd wrote not

/-- The content of a path at the end: the last text that was to overwrite it, or else what it held, or else the first
text that it was created with. -/
theorem settlesPath (run : Run first es last) (linked : first.Linked) (careful : Careful es)
    (plain : ".." ∉ p.pieces ∨ (first.content? p).isSome = true) :
    last.content? p =
      ((es.filterMap (Event.wrote .always p)).getLast?.or (first.content? p)).or
        (es.filterMap (Event.wrote .ifMissing p)).head? := by
  have ends := run.linked linked
  cases found : last.fileOf p with
  | none =>
    have none (rule : Overwrite) : es.filterMap (Event.wrote rule p) = [] := by
      rw [List.filterMap_eq_nil_iff]
      intro e mem
      exact run.wroteNothing linked found mem rule
    have start : first.content? p = Option.none := by
      cases held : first.fileOf p with
      | none => rw [FileSystem.contentOf linked, held, Option.bind_none]
      | some loc =>
        have later := FileSystem.fileOfStays linked (run.grows linked) held
        rw [found] at later
        contradiction
    rw [none, none, start, FileSystem.contentOf ends, found]
    rfl
  | some loc =>
    have always : es.filterMap (Event.replaces loc) = es.filterMap (Event.wrote .always p) := by
      apply List.filterMap_congr
      intro e mem
      rw [run.wroteAt linked plain found mem]
      unfold Event.replaces
      cases put : e.put loc with
      | none => rfl
      | some f =>
        cases rule : f.rules.overwrite with
        | always => simp [rule]
        | ifMissing => simp [rule, run.missingAt linked careful mem put rule]
    have created : es.filterMap (Event.creates loc) = es.filterMap (Event.wrote .ifMissing p) := by
      apply List.filterMap_congr
      intro e mem
      rw [run.wroteAt linked plain found mem]
      unfold Event.creates
      cases put : e.put loc with
      | none => rfl
      | some f =>
        cases rule : f.rules.overwrite with
        | always => simp [rule]
        | ifMissing => simp [rule, run.missingAt linked careful mem put rule]
    rw [FileSystem.contentOf ends, found, Option.bind_some, run.settles linked loc, always, created,
      run.contentFirst linked plain found]

end Paths

end Run

/-- What a sequence of writes leaves. Every call leaves alone what it is to leave alone, if it learns of it, and writes no
file but its own, whatever else fails. In the end each file holds the last text that replaced it, or else what it held,
or else what it was created with. A call that is for missing files writes over one that is there exactly if it misses it;
then its question was not answered, or its path goes back up. Without such a call, every path that does not go back up,
or that named a file at first, holds the last text that was to overwrite it, or else what it held, or else the first
text that it was created with. -/
theorem writesSettle {first last : FileSystem} {es : List Event} (linked : first.Linked) (run : Run first es last) :
    (∀ e ∈ es, e.Sound) ∧
    (∀ loc, last.fileAt loc =
      ((es.filterMap (Event.replaces loc)).getLast?.or (first.fileAt loc)).or
        (es.filterMap (Event.creates loc)).head?) ∧
    (∀ e ∈ es, ∀ (f : OutputFile) (loc : Location), f.rules.overwrite = .ifMissing →
      ((∃ after, f.writeAsking e.answered e.before = (.written, after) ∧ after.fileOf f.path = some loc ∧
        (e.before.fileAt loc).isSome = true) ↔ e.before.Misses e.answered f.path loc)) ∧
    (∀ e ∈ es, ∀ p loc, e.before.Misses e.answered p loc → e.answered = false ∨ ".." ∈ p.pieces) ∧
    ((∀ e ∈ es, ∀ f, e.call.output = .ok f → f.rules.overwrite = .ifMissing →
        ∀ loc, ¬e.before.Misses e.answered f.path loc) →
      ∀ p, ".." ∉ p.pieces ∨ (first.content? p).isSome = true →
        last.content? p =
          ((es.filterMap (Event.wrote .always p)).getLast?.or (first.content? p)).or
            (es.filterMap (Event.wrote .ifMissing p)).head?) := by
  refine ⟨?_, run.settles linked, ?_, ?_, fun careful p => run.settlesPath linked careful⟩
  · intro e mem
    obtain ⟨happens, ready, _, _⟩ := run.split linked mem
    exact happens.sound ready
  · intro e mem f loc rule
    exact OutputFile.overwritesIff (run.split linked mem).2.1 rule
  · intro e mem p loc misses
    cases answered : e.answered with
    | false => exact .inl rfl
    | true =>
      rw [answered] at misses
      exact .inr (FileSystem.missesBehind (run.split linked mem).2.1 misses)

def editedStub : FileSystem := (FileSystem.fresh 0).put ⟨0, "stub.c"⟩ (.file "hand edited")

theorem editedStubLinked : editedStub.Linked :=
  FileSystem.linkedPut (FileSystem.linkedFresh 0) (Nat.lt_succ_self 0) (fun n same => by cases same)

def stubAt (pieces : List String) : OutputFile := ⟨⟨pieces⟩, "generated", ⟨.ifMissing, none⟩⟩

def stubEvent (pieces : List String) (answered : Bool) : Event :=
  ⟨editedStub, .file (stubAt pieces), answered, .ok .written, ((stubAt pieces).writeAsking answered editedStub).2⟩

theorem stubEventRun {pieces : List String} {answered : Bool}
    (written : ((stubAt pieces).writeAsking answered editedStub).1 = .written) :
    Run editedStub [stubEvent pieces answered] (stubEvent pieces answered).after := by
  have ran : (WriteCall.file (stubAt pieces)).run answered editedStub = .ok (.written, (stubEvent pieces answered).after) :=
    congrArg Except.ok (Prod.ext written rfl)
  exact .cons (e := stubEvent pieces answered) (.done ran) (.nil _)

/-- The stub is lost in two ways: the question whether its path exists is not answered, or its path goes back up behind
a directory that the call makes. -/
theorem editedStubLost :
    editedStub.Linked ∧ editedStub.content? ⟨["stub.c"]⟩ = some "hand edited" ∧
    ∀ pieces answered, (pieces, answered) = (["stub.c"], false) ∨ (pieces, answered) = (["gen", "..", "stub.c"], true) →
      Run editedStub [stubEvent pieces answered] (stubEvent pieces answered).after ∧
      (stubAt pieces).rules.overwrite = .ifMissing ∧
      (stubEvent pieces answered).after.content? ⟨["stub.c"]⟩ = some "generated" ∧
      editedStub.Misses answered ⟨pieces⟩ ⟨0, "stub.c"⟩ := by
  refine ⟨editedStubLinked, by decide +kernel, fun pieces answered which => ?_⟩
  have written : ((stubAt pieces).writeAsking answered editedStub).1 = .written := by
    rcases which with same | same <;> cases same <;> decide +kernel
  have named : (stubEvent pieces answered).after.fileOf ⟨pieces⟩ = some ⟨0, "stub.c"⟩ := by
    rcases which with same | same <;> cases same <;> decide +kernel
  have lost : (stubEvent pieces answered).after.content? ⟨["stub.c"]⟩ = some "generated" := by
    rcases which with same | same <;> cases same <;> decide +kernel
  have held : (editedStub.fileAt ⟨0, "stub.c"⟩).isSome = true := by decide +kernel
  have run := stubEventRun written
  have settled := writesSettle editedStubLinked run
  have missed := (settled.2.2.1 _ (List.mem_singleton_self _) (stubAt pieces) ⟨0, "stub.c"⟩ rfl).mp
    ⟨_, Prod.ext written rfl, named, held⟩
  exact ⟨run, rfl, lost, missed⟩

end CSource.Files
