/-!
Conditional inclusion: the filter of a preprocessor on the lines of a text. A group of branches is opened, continued
and closed by lines that begin with a number sign, groups nest, and a line is kept if every group around it is in a
branch that was selected. A text whose groups are all closed again leaves the filter as it was, wherever it stands.
-/

namespace CSource

/-- An answer for every condition and for every name that can be asked for. -/
structure Valuation where
  holds : String → Bool
  defined : String → Bool

namespace Inclusion

abbrev Line := List Char

def lines (text : List Char) : List Line := text.splitOn '\n'

/-- What a line does to the groups, with the answer to what it asks. -/
inductive Marker where
  | start (holds : Bool)
  | again (holds : Bool)
  | finish
  deriving DecidableEq, Repr

/-- The words of the lines that are not kept. What is asked stands one blank behind the word. -/
def marker (v : Valuation) : Line → Option Marker
  | '#' :: rest =>
    let asked := String.ofList ((rest.dropWhile Char.isAlpha).drop 1)
    match String.ofList (rest.takeWhile Char.isAlpha) with
    | "if" => some (.start (v.holds asked))
    | "ifdef" => some (.start (v.defined asked))
    | "ifndef" => some (.start (!v.defined asked))
    | "elif" => some (.again (v.holds asked))
    | "else" => some (.again true)
    | "endif" => some .finish
    | _ => none
  | _ => none

/-- An open group: a branch of it has been selected, and it is the branch that is read. -/
structure Group where
  taken : Bool
  active : Bool
  deriving DecidableEq, Repr

def Marker.move : Marker → List Group → List Group
  | start holds, groups => ⟨holds, holds⟩ :: groups
  | again holds, g :: groups => ⟨g.taken || holds, !g.taken && holds⟩ :: groups
  | finish, _ :: groups => groups
  | _, [] => []

def active (groups : List Group) : Bool := groups.all (·.active)

/-- The groups that are open behind the lines, and the lines that are kept. -/
def filterLines (v : Valuation) : List Group → List Line → List Group × List Line
  | groups, [] => (groups, [])
  | groups, l :: ls =>
    match marker v l with
    | some m => filterLines v (m.move groups) ls
    | none =>
      let (after, kept) := filterLines v groups ls
      (after, if active groups then l :: kept else kept)

def included (v : Valuation) (text : String) : List Line := (filterLines v [] (lines text.toList)).2

def isBlank (l : Line) : Bool := l.all Char.isWhitespace

def visible (v : Valuation) (text : String) : List Line := (included v text).filter (!isBlank ·)

def Plain (l : Line) : Prop := l.head? ≠ some '#'

instance : DecidablePred Plain := fun l => inferInstanceAs (Decidable (l.head? ≠ some '#'))

def Unmarked (text : String) : Prop := ∀ l ∈ lines text.toList, Plain l

instance : DecidablePred Unmarked := fun text => inferInstanceAs (Decidable (∀ l ∈ lines text.toList, Plain l))

/-- The lines close what they open. Where they are read at all, `kept` is what is left of them. -/
def Neutral (v : Valuation) (ls kept : List Line) : Prop :=
  ∀ groups, filterLines v groups ls = (groups, if active groups then kept else [])

/-- The lines from the end of a branch to the end of its group: for each branch that follows, the answer to what it
asks and the lines that it would leave. -/
inductive Rest (v : Valuation) : List Line → List (Bool × List Line) → Prop where
  | finish {l : Line} (found : marker v l = some .finish) : Rest v [l] []
  | branch {l : Line} {holds : Bool} {xs ys kept : List Line} {arms : List (Bool × List Line)}
      (found : marker v l = some (.again holds)) (body : Neutral v xs kept) (later : Rest v ys arms) :
      Rest v (l :: xs ++ ys) ((holds, kept) :: arms)

variable {v : Valuation} {l : Line} {ls xs ys kept others : List Line}

theorem Plain.marker (plain : Plain l) : marker v l = none := by
  unfold Inclusion.marker
  split
  · exact absurd rfl plain
  · rfl

theorem activeCons (g : Group) (groups : List Group) : active (g :: groups) = (g.active && active groups) :=
  List.all_cons

theorem filterMarker {m : Marker} (found : marker v l = some m) (groups : List Group) :
    filterLines v groups (l :: ls) = filterLines v (m.move groups) ls := by
  rw [filterLines, found]

theorem filterAppend (groups : List Group) :
    filterLines v groups (xs ++ ys) =
      ((filterLines v (filterLines v groups xs).1 ys).1,
        (filterLines v groups xs).2 ++ (filterLines v (filterLines v groups xs).1 ys).2) := by
  induction xs generalizing groups with
  | nil => rfl
  | cons l xs ih =>
    simp only [List.cons_append, filterLines]
    cases marker v l with
    | some m => exact ih (m.move groups)
    | none =>
      simp only [ih]
      split <;> rfl

namespace Neutral

theorem nil : Neutral v [] [] := by simp [Neutral, filterLines]

theorem append (first : Neutral v xs kept) (second : Neutral v ys others) : Neutral v (xs ++ ys) (kept ++ others) := by
  intro groups
  rw [filterAppend, first groups, second groups]
  cases active groups <;> rfl

theorem plain (plain : Plain l) : Neutral v [l] [l] := by
  intro groups
  simp [filterLines, plain.marker]

end Neutral

def chosen : List (Bool × List Line) → List Line
  | [] => []
  | (holds, kept) :: arms => if holds then kept else chosen arms

theorem Rest.filter {arms : List (Bool × List Line)} (rest : Rest v ls arms) (g : Group) (groups : List Group) :
    filterLines v (g :: groups) ls = (groups, if active groups && !g.taken then chosen arms else []) := by
  induction rest generalizing g with
  | finish found =>
    rw [filterMarker found]
    simp [Marker.move, filterLines, chosen]
  | @branch l holds xs ys kept arms found body later ih =>
    rw [List.cons_append, filterMarker found, Marker.move, filterAppend, body _, ih, activeCons]
    -- a branch before this one was selected, or this one is, or the choice is left to the later ones
    cases g.taken <;> cases holds <;> cases active groups <;> simp [chosen]

theorem groupNeutral {holds : Bool} {arms : List (Bool × List Line)} (found : marker v l = some (.start holds))
    (body : Neutral v xs kept) (rest : Rest v ys arms) :
    Neutral v (l :: xs ++ ys) (chosen ((holds, kept) :: arms)) := by
  intro groups
  rw [List.cons_append, filterMarker found, Marker.move, filterAppend, body _, rest.filter, activeCons]
  cases holds <;> cases active groups <;> simp [chosen]

section Texts

variable {cs ds pre : List Char}

theorem linesBreak (cs ds : List Char) : lines (cs ++ '\n' :: ds) = lines cs ++ lines ds :=
  List.splitOn_append_cons_self ..

theorem linesSingle (single : '\n' ∉ l) : lines l = [l] := by
  simpa [lines] using List.splitOn_eq_singleton single

/-- However the line that the text is put behind begins, unless with a number sign: the text completes lines that
close what they open, and ends within a line that does not begin with one. -/
def Steady (v : Valuation) (cs : List Char) : Prop :=
  ∀ pre, Plain pre → '\n' ∉ pre → ∃ mid post kept, Neutral v mid kept ∧ Plain post ∧ '\n' ∉ post ∧
    ∀ ds, lines (pre ++ cs ++ ds) = mid ++ lines (post ++ ds)

theorem Steady.append (first : Steady v cs) (second : Steady v ds) : Steady v (cs ++ ds) := by
  intro pre plain single
  obtain ⟨mid, post, kept, neutral, plain, single, split⟩ := first pre plain single
  obtain ⟨mid', post', kept', neutral', plain', single', split'⟩ := second post plain single
  refine ⟨mid ++ mid', post', kept ++ kept', neutral.append neutral', plain', single', fun es => ?_⟩
  calc lines (pre ++ (cs ++ ds) ++ es) = lines (pre ++ cs ++ (ds ++ es)) := by simp
    _ = mid ++ lines (post ++ ds ++ es) := by rw [split, List.append_assoc]
    _ = mid ++ mid' ++ lines (post' ++ es) := by rw [split', List.append_assoc]

theorem steadyNil : Steady v [] :=
  fun pre plain single => ⟨[], pre, [], .nil, plain, single, fun ds => by simp⟩

theorem Plain.append (first : Plain pre) (second : Plain l) : Plain (pre ++ l) := by
  cases pre with
  | nil => exact second
  | cons c pre => exact first

theorem linesBehind (single : '\n' ∉ pre) : lines (pre ++ cs) = (lines cs).modifyHead (pre ++ ·) := by
  induction pre with
  | nil =>
    rw [List.nil_append]
    cases lines cs <;> rfl
  | cons c pre ih =>
    obtain ⟨other, single⟩ := not_or.mp fun either => single (List.mem_cons.mpr either)
    have ahead : lines (c :: (pre ++ cs)) = (lines (pre ++ cs)).modifyHead (c :: ·) := by
      simp [lines, List.splitOn_cons_eq_if_modifyHead, Ne.symm other]
    rw [List.cons_append, ahead, ih single, List.modifyHead_modifyHead]
    rfl

theorem plainBehind (plain : Plain pre) (single : '\n' ∉ pre) (each : ∀ l ∈ lines cs, Plain l) :
    ∀ l ∈ lines (pre ++ cs), Plain l := by
  rw [linesBehind single]
  cases split : lines cs with
  | nil => exact fun _ mem => nomatch mem
  | cons first others =>
    rw [split] at each
    intro l mem
    rcases List.mem_cons.mp mem with rfl | later
    · exact plain.append (each first (List.mem_cons_self ..))
    · exact each l (List.mem_cons_of_mem _ later)

theorem steadyPlain (each : ∀ l ∈ lines cs, Plain l) : Steady v cs := by
  intro pre plain single
  replace each := plainBehind plain single each
  clear plain
  induction cs generalizing pre with
  | nil =>
    have whole : Plain pre := each pre (by simp [linesSingle single])
    exact ⟨[], pre, [], .nil, whole, single, fun ds => by simp⟩
  | cons c cs ih =>
    by_cases ends : c = '\n'
    · subst ends
      rw [linesBreak, linesSingle single] at each
      obtain ⟨mid, post, kept, neutral, plain, last, split⟩ :=
        ih [] nofun fun l mem => each l (List.mem_cons_of_mem _ mem)
      have here : Neutral v [pre] [pre] := .plain (each pre (List.mem_cons_self ..))
      refine ⟨[pre] ++ mid, post, [pre] ++ kept, here.append neutral, plain, last, fun ds => ?_⟩
      have further : lines (cs ++ ds) = mid ++ lines (post ++ ds) := split ds
      rw [List.append_assoc, List.cons_append, linesBreak, linesSingle single, further, List.append_assoc]
    · have longer : '\n' ∉ pre ++ [c] := by simp [single, Ne.symm ends]
      have same (es : List Char) : pre ++ c :: es = pre ++ [c] ++ es := by simp
      rw [same] at each
      simpa only [List.append_assoc, List.cons_append, List.nil_append] using ih (pre ++ [c]) longer each

/-- A text that stands on lines of its own, whatever it is put between. -/
def Stands (v : Valuation) (cs : List Char) (kept : List Line) : Prop :=
  ∃ ls, Neutral v ls kept ∧ ∀ pre ds, lines (pre ++ cs ++ ds) = lines pre ++ ls ++ lines ds

theorem Stands.steady (stands : Stands v cs kept) : Steady v cs := by
  intro pre plain single
  obtain ⟨ls, neutral, split⟩ := stands
  refine ⟨[pre] ++ ls, [], [pre] ++ kept, (Neutral.plain plain).append neutral, nofun, nofun, fun ds => ?_⟩
  rw [split, linesSingle single, List.nil_append]

/-- The text from the end of a branch on. -/
def Closes (v : Valuation) (cs : List Char) (arms : List (Bool × List Line)) : Prop :=
  ∃ ls, Rest v ls arms ∧ ∀ pre ds, lines (pre ++ cs ++ ds) = lines pre ++ ls ++ lines ds

variable {mark body : List Char} {holds : Bool} {arms : List (Bool × List Line)}

theorem closesEnd : Closes v "\n#endif\n".toList [] := by
  refine ⟨["#endif".toList], .finish (by rfl), fun pre ds => ?_⟩
  have spread : pre ++ "\n#endif\n".toList ++ ds = pre ++ '\n' :: ("#endif".toList ++ '\n' :: ds) := by simp
  rw [spread, linesBreak, linesBreak, linesSingle (l := "#endif".toList) (by decide), List.append_assoc]

theorem linesMarked (single : '\n' ∉ mark) (pre ds : List Char) :
    lines (pre ++ ('\n' :: mark ++ '\n' :: body ++ cs) ++ ds) = lines pre ++ mark :: lines (body ++ cs ++ ds) := by
  have spread : pre ++ ('\n' :: mark ++ '\n' :: body ++ cs) ++ ds =
      pre ++ '\n' :: (mark ++ '\n' :: (body ++ cs ++ ds)) := by simp
  rw [spread, linesBreak, linesBreak, linesSingle single, List.singleton_append]

theorem Closes.branch (single : '\n' ∉ mark) (found : marker v mark = some (.again holds))
    (neutral : Neutral v (lines body) kept) (later : Closes v cs arms) :
    Closes v ('\n' :: mark ++ '\n' :: body ++ cs) ((holds, kept) :: arms) := by
  obtain ⟨ls, rest, split⟩ := later
  refine ⟨mark :: lines body ++ ls, .branch found neutral rest, fun pre ds => ?_⟩
  rw [linesMarked single, split]
  simp

theorem Closes.group (single : '\n' ∉ mark) (found : marker v mark = some (.start holds))
    (neutral : Neutral v (lines body) kept) (later : Closes v cs arms) :
    Stands v ('\n' :: mark ++ '\n' :: body ++ cs) (chosen ((holds, kept) :: arms)) := by
  obtain ⟨ls, rest, split⟩ := later
  refine ⟨mark :: lines body ++ ls, groupNeutral found neutral rest, fun pre ds => ?_⟩
  rw [linesMarked single, split]
  simp

end Texts

section Strings

variable {text : String}

theorem Neutral.included (neutral : Neutral v (lines text.toList) kept) : included v text = kept :=
  congrArg Prod.snd (neutral [])

theorem Steady.neutral (steady : Steady v text.toList) : Neutral v (lines text.toList) (included v text) := by
  obtain ⟨mid, post, kept, neutral, plain, single, split⟩ := steady [] nofun nofun
  have whole : lines text.toList = mid ++ [post] := by
    simpa [linesSingle single] using split []
  have all : Neutral v (lines text.toList) (kept ++ [post]) := whole ▸ neutral.append (.plain plain)
  rw [all.included]
  exact all

theorem Stands.visible (stands : Stands v text.toList kept) : visible v text = kept.filter (!isBlank ·) := by
  obtain ⟨ls, neutral, split⟩ := stands
  have empty : Neutral v (lines []) [[]] := by
    rw [linesSingle (l := []) nofun]
    exact .plain nofun
  have whole : lines text.toList = lines [] ++ ls ++ lines [] := by simpa using split [] []
  have all : Neutral v (lines text.toList) ([[]] ++ kept ++ [[]]) := whole ▸ (empty.append neutral).append empty
  simp [Inclusion.visible, all.included, isBlank]

end Strings

end Inclusion

end CSource
