import CSource.Proofs.Housing
import CSource.Proofs.Placing

/-!
Splicing. A preprocessor joins every continued line to the next one before it reads a definition. The definition of a
macro with parameters is one line then: its head and the texts of its entries, whatever newlines and continuation marks
these have themselves.
-/

namespace CSource

open Build Pieces Render Text

def splice : List Char → List Char
  | '\\' :: '\n' :: rest => splice rest
  | c :: rest => c :: splice rest
  | [] => []

def continuations (cs : List Char) : Nat := (cs.zip cs.tail).count ('\\', '\n')

def Continued (cs : List Char) : Prop := ∀ pre post, cs = pre ++ '\n' :: post → pre.getLast? = some '\\'

def Parts (cs ds : List Char) : Prop := cs.getLast? = some '\\' → ds.head? ≠ some '\n'

section Characters

variable {c : Char} {cs ds rest : List Char}

theorem spliceCons (parts : Parts [c] rest) : splice (c :: rest) = c :: splice rest := by
  rw [splice]
  rintro tail rfl rfl
  exact parts rfl rfl

theorem continuationsCons (parts : Parts [c] rest) : continuations (c :: rest) = continuations rest := by
  cases rest with
  | nil => rfl
  | cons d rest =>
    have other : ((c, d) == ('\\', '\n')) = false := by
      refine beq_eq_false_iff_ne.mpr fun same => ?_
      cases same
      exact parts rfl rfl
    simp [continuations, List.count_cons, other]

theorem continuationsMark : continuations ('\\' :: '\n' :: rest) = continuations rest + 1 := by
  have inner : continuations ('\n' :: rest) = continuations rest := continuationsCons (by simp [Parts])
  rw [← inner]
  simp [continuations]

theorem partsContinued (parts : Parts (c :: cs) rest) : Parts [c] (continueChars cs ++ rest) := by
  cases cs with
  | nil => exact parts
  | cons d cs => by_cases newline : d = '\n' <;> simp [Parts, continueChars, continueChar, newline]

theorem partsTail (parts : Parts (c :: cs) rest) : Parts cs rest := by
  intro last
  refine parts ?_
  rw [List.getLast?_cons, last]
  rfl

theorem spliceContinued (parts : Parts cs rest) :
    splice (continueChars cs ++ rest) = cs.filter (· ≠ '\n') ++ splice rest ∧
      continuations (continueChars cs ++ rest) = cs.count '\n' + continuations rest := by
  induction cs with
  | nil => exact ⟨rfl, (Nat.zero_add _).symm⟩
  | cons c cs ih =>
    obtain ⟨spliced, counted⟩ := ih (partsTail parts)
    by_cases newline : c = '\n'
    · subst newline
      -- the mark that is put before a newline is always the one that is taken away with it
      have shape : continueChars ('\n' :: cs) ++ rest = '\\' :: '\n' :: (continueChars cs ++ rest) := rfl
      rw [shape, splice, continuationsMark, spliced, counted, List.count_cons_self]
      exact ⟨rfl, by omega⟩
    · have shape : continueChars (c :: cs) ++ rest = c :: (continueChars cs ++ rest) := by
        simp [continueChars, continueChar, newline]
      have apart := partsContinued parts
      rw [shape, spliceCons apart, continuationsCons apart, spliced, counted, List.count_cons_of_ne newline]
      simp [newline]

theorem Continued.append (first : Continued cs) (second : Continued ds) : Continued (cs ++ ds) := by
  intro pre post split
  rcases List.append_eq_append_iff.mp split with ⟨more, rfl, same⟩ | ⟨more, rfl, same⟩
  · have last := second more post same
    rw [List.getLast?_append, last]
    rfl
  · cases more with
    | nil => exact absurd (second [] post same.symm) (by simp)
    | cons d more =>
      cases (List.cons.inj same).1
      exact first pre more rfl

theorem continuedChars (cs : List Char) : Continued (continueChars cs) := by
  induction cs with
  | nil => simp [Continued, continueChars]
  | cons c cs ih =>
    suffices first : Continued (continueChar c) from first.append ih
    intro pre post split
    by_cases newline : c = '\n' <;> simp only [continueChar, newline, if_true, if_false] at split
    · rcases List.cons_eq_append_iff.mp split with ⟨rfl, clash⟩ | ⟨rest, rfl, last⟩
      · simp at clash
      · rcases List.cons_eq_append_iff.mp last with ⟨rfl, _⟩ | ⟨_, rfl, none⟩
        · rfl
        · simp at none
    · rcases List.cons_eq_append_iff.mp split with ⟨rfl, clash⟩ | ⟨_, rfl, none⟩
      · exact absurd (List.cons.inj clash).1.symm newline
      · simp at none

theorem lineSpliced {head body : List Char} (single : '\n' ∉ head) (visible : head.getLast? = some ' ')
    (last : body.getLast? ≠ some '\\') :
    continuations ('\n' :: (head ++ continueChars body ++ ['\n'])) = body.count '\n' ∧
      splice ('\n' :: (head ++ continueChars body ++ ['\n'])) =
        '\n' :: (head ++ body.filter (· ≠ '\n') ++ ['\n']) := by
  have first : Parts ['\n'] (continueChars (head ++ body) ++ ['\n']) := nofun
  have ends : Parts (head ++ body) ['\n'] := by
    intro mark
    rw [List.getLast?_append] at mark
    cases final : body.getLast? with
    | none =>
      rw [final, visible] at mark
      exact absurd mark (by decide)
    | some c =>
      rw [final] at mark
      exact absurd (final.trans mark) last
  have kept : head.filter (· ≠ '\n') = head := by
    refine List.filter_eq_self.mpr fun c mem => decide_eq_true fun same => ?_
    exact single (same ▸ mem)
  obtain ⟨spliced, counted⟩ := spliceContinued ends
  have whole : head ++ continueChars body = continueChars (head ++ body) := by
    rw [continueCharsAppend, continueCharsFixed single]
  rw [whole, continuationsCons first, spliceCons first, spliced, counted, List.count_append,
    List.count_eq_zero.mpr single, List.filter_append, kept]
  exact ⟨by simp [continuations], by simp [splice]⟩

end Characters

def macroHead (name : String) (ps : List String) : String :=
  "#define " ++ name ++ "(" ++ ",".intercalate ps ++ ") "

section Macro

variable {a : Arena} {d : DirectiveRef} {name text : String} {ps : List String} {scope : ScopeRef}
  {entries : List Entry}

theorem joinedSingle (single : ∀ s ∈ ps, '\n' ∉ s.toList) : '\n' ∉ (",".intercalate ps).toList := by
  induction ps with
  | nil => simp
  | cons s ps ih =>
    obtain ⟨first, others⟩ := List.forall_mem_cons.mp single
    cases ps with
    | nil => simpa using first
    | cons t ps =>
      rw [String.intercalate_cons_cons, String.toList_append, String.toList_append, List.mem_append, List.mem_append]
      rintro ((mem | mem) | mem)
      · exact first mem
      · exact absurd mem (by decide)
      · exact ih others mem

theorem headSingle (single : ∀ s ∈ name :: ps, '\n' ∉ s.toList) : '\n' ∉ (macroHead name ps).toList := by
  obtain ⟨plain, others⟩ := List.forall_mem_cons.mp single
  have joined := joinedSingle others
  unfold macroHead
  simp only [String.toList_append, List.mem_append]
  rintro ((((mem | mem) | mem) | mem) | mem)
  · exact absurd mem (by decide)
  · exact plain mem
  · exact absurd mem (by decide)
  · exact joined mem
  · exact absurd mem (by decide)

theorem headEnds : (macroHead name ps).toList.getLast? = some ' ' := by
  simp only [macroHead, String.toList_append]
  rw [List.getLast?_append]
  rfl

theorem spellsEntries : a.Spells (Render.scope ⟨.macroBody, entries⟩) text ↔
    ∃ texts, List.Forall₂ (fun e t => a.render (Entry.ref e) = .ok t) entries texts ∧ text = String.join texts := by
  induction entries generalizing text with
  | nil => simp [Render.scope, Arena.spellsNil]
  | cons e entries ih =>
    have shape : Render.scope ⟨.macroBody, e :: entries⟩ = .child e.ref :: Render.scope ⟨.macroBody, entries⟩ := rfl
    rw [shape, Arena.spellsChild]
    constructor
    · rintro ⟨head, rest, written, spelled, rfl⟩
      obtain ⟨texts, others, rfl⟩ := ih.mp spelled
      exact ⟨head :: texts, .cons written others, by rw [String.join_cons]⟩
    · rintro ⟨_, _ | ⟨written, others⟩, rfl⟩
      exact ⟨_, _, written, ih.mpr ⟨_, others, rfl⟩, by rw [String.join_cons]⟩

theorem bodyText (body : a.node scope = .ok ⟨.macroBody, entries⟩) (bare : a.commentsOf scope.ref = none) :
    a.render scope.ref = .ok text ↔
      ∃ texts, List.Forall₂ (fun e t => a.render (Entry.ref e) = .ok t) entries texts ∧
        text = continueLines (String.join texts) := by
  have continues : continuesLines a scope.ref = true := scopeContinues body
  rw [renderedIff, scopePieces body, continues]
  constructor
  · rintro ⟨_, spelled, rfl⟩
    obtain ⟨texts, written, rfl⟩ := spellsEntries.mp spelled
    exact ⟨texts, written, by simp [Arena.commented, bare, continuedIf]⟩
  · rintro ⟨texts, written, rfl⟩
    exact ⟨_, spellsEntries.mpr ⟨texts, written, rfl⟩, by simp [Arena.commented, bare, continuedIf]⟩

theorem spellsMacro : a.Spells (directive (.defineFunction name ps scope)) text ↔
    ∃ t, a.render scope.ref = .ok t ∧ text = "\n" ++ (macroHead name ps ++ t) ++ "\n" := by
  have pieces : directive (.defineFunction name ps scope) = .code "\n#define " :: .code name ::
      (inParens (separated "," (ps.map ofText)) ++ .code " " :: .child scope.ref :: ofText "\n") := rfl
  have heading (t : String) : "\n#define " ++ (name ++ ("(" ++ ",".intercalate ps ++ ")" ++ (" " ++ (t ++ "\n")))) =
      "\n" ++ (macroHead name ps ++ t) ++ "\n" := by
    apply String.toList_inj.mp
    simp [macroHead]
  simp only [pieces, Arena.spellsCode, Arena.spellsAppend, Arena.spellsInParens, Arena.spellsWords, Arena.spellsChild,
    Arena.spellsOfText]
  constructor
  · rintro ⟨_, ⟨_, ⟨_, _, ⟨_, rfl, rfl⟩, ⟨_, ⟨t, _, told, rfl, rfl⟩, rfl⟩, rfl⟩, rfl⟩, rfl⟩
    exact ⟨t, told, heading t⟩
  · rintro ⟨t, told, rfl⟩
    exact ⟨_, ⟨_, ⟨_, _, ⟨_, rfl, rfl⟩, ⟨_, ⟨t, _, told, rfl, rfl⟩, rfl⟩, rfl⟩, rfl⟩, (heading t).symm⟩

theorem macroText (found : a.node d = .ok (.defineFunction name ps scope))
    (body : a.node scope = .ok ⟨.macroBody, entries⟩) (bare : a.commentsOf scope.ref = none) :
    a.render d.ref = .ok text ↔
      ∃ texts, List.Forall₂ (fun e t => a.render (Entry.ref e) = .ok t) entries texts ∧
        text = a.commented d.ref ("\n" ++ (macroHead name ps ++ continueLines (String.join texts)) ++ "\n") := by
  have plain : continuesLines a d.ref = false := rfl
  simp only [renderedIff, Arena.piecesOf found, plain, Render.node, spellsMacro, bodyText body bare]
  constructor
  · rintro ⟨_, ⟨_, ⟨texts, written, rfl⟩, rfl⟩, rfl⟩
    exact ⟨texts, written, rfl⟩
  · rintro ⟨texts, written, rfl⟩
    exact ⟨_, ⟨_, ⟨texts, written, rfl⟩, rfl⟩, rfl⟩

end Macro

/-- A macro with parameters is one logical line: its newlines are those of its entries, each continued, and the
preprocessor finds the head and the entries behind each other. -/
theorem macrosOneLine {p : Policy} {w : World} (reachable : w.Reachable p) {n : Nat} {a : Arena}
    (here : w.session.arenas[n]? = some a) {d : DirectiveRef} {name : String} {ps : List String} {scope : ScopeRef}
    (found : a.node d = .ok (.defineFunction name ps scope)) (single : ∀ s ∈ name :: ps, '\n' ∉ s.toList)
    (bare : a.commentsOf scope.ref = none) :
    ∃ entries, a.node scope = .ok ⟨.macroBody, entries⟩ ∧
      ((∃ text, a.render d.ref = .ok text) ↔
        ∃ texts, List.Forall₂ (fun e t => a.render (Entry.ref e) = .ok t) entries texts) ∧
      ∀ texts, List.Forall₂ (fun e t => a.render (Entry.ref e) = .ok t) entries texts →
        (String.join texts).toList.getLast? ≠ some '\\' →
        ∃ middle, a.render d.ref = .ok (a.commented d.ref ("\n" ++ middle ++ "\n")) ∧
          Continued middle.toList ∧
          continuations ("\n" ++ middle ++ "\n").toList = (String.join texts).toList.count '\n' ∧
          splice ("\n" ++ middle ++ "\n").toList =
            '\n' :: ("#define " ++ name ++ "(" ++ ",".intercalate ps ++ ") ").toList ++
              (String.join texts).toList.filter (· ≠ '\n') ++ ['\n'] := by
  have housed := reachable.housed n a here
  have owned : (⟨scope, .macroBody⟩ : Body) ∈ a.bodiesOf d.ref := by
    rw [Arena.bodiesOfFound found]
    exact List.mem_singleton_self _
  obtain ⟨entries, body⟩ := housed.kept d.ref _ owned
  refine ⟨entries, body, ?_, fun texts written last => ?_⟩
  · simp only [macroText found body bare]
    exact ⟨fun ⟨_, texts, written, _⟩ => ⟨texts, written⟩, fun ⟨texts, written⟩ => ⟨_, texts, written, rfl⟩⟩
  have level := headSingle single
  have inside : (macroHead name ps ++ continueLines (String.join texts)).toList =
      (macroHead name ps).toList ++ continueChars (String.join texts).toList := by
    rw [String.toList_append, continueLines, String.toList_ofList]
  have whole : ("\n" ++ (macroHead name ps ++ continueLines (String.join texts)) ++ "\n").toList =
      '\n' :: ((macroHead name ps).toList ++ continueChars (String.join texts).toList ++ ['\n']) := by
    rw [String.toList_append, String.toList_append, inside]
    rfl
  have marked : Continued ((macroHead name ps).toList ++ continueChars (String.join texts).toList) := by
    rw [← continueCharsFixed level, ← continueCharsAppend]
    exact continuedChars _
  obtain ⟨counted, spliced⟩ := lineSpliced level headEnds last
  refine ⟨_, (macroText found body bare).mpr ⟨texts, written, rfl⟩, inside ▸ marked, ?_, ?_⟩
  · rw [whole, counted]
  · rw [whole, spliced]
    rfl

def World.macroMade : World :=
  branched.act 0 (.putDirective ⟨.topLevel, ⟨0, 2⟩⟩ .topLevel rfl (.defineFunction "F" ["x", "y"]))

theorem World.macroMadeReachable : macroMade.Reachable .strict :=
  .act branchedReachable (allowsHeld (by decide) rfl (by decide))

def World.macroOpened : World :=
  ⟨macroMade.session, macroMade.held ++ issuedBy (.ok (.place ⟨.macroBody, ⟨0, 3⟩⟩))⟩

theorem World.macroOpenedReachable : macroOpened.Reachable .strict := by
  refine macroMadeReachable.tail (.ask (n := 0) (q := .macroScope ⟨⟨0, 1⟩⟩) ?_ rfl)
  exact List.forall_mem_singleton.mpr (.issued (by decide))

def World.macroWritten : World :=
  ((macroOpened.act 0 (.putAny ⟨.macroBody, ⟨0, 3⟩⟩ (.raw "x\\\nx"))).act 0
    (.putStmt ⟨.macroBody, ⟨0, 3⟩⟩ rfl (.raw "y"))).act 0 (.commentBefore ⟨.stmt, 0, 0⟩ "\n")

theorem World.macroWrittenReachable : macroWritten.Reachable .strict := by
  refine .act (.act (.act macroOpenedReachable ?_) ?_) ?_
  all_goals exact allowsHeld (by decide) rfl (by decide)

theorem continuedMacroSpliced : ∃ a, World.macroWritten.session.arenas[0]? = some a ∧
    a.render ⟨.directive, 0, 1⟩ = .ok "\n#define F(x,y) x\\\\\nx/* \\\n */y\n" ∧
    splice "\n#define F(x,y) x\\\\\nx/* \\\n */y\n".toList = "\n#define F(x,y) x\\x/*  */y\n".toList := by
  obtain ⟨a, here⟩ : ∃ a, World.macroWritten.session.arenas[0]? = some a := ⟨_, rfl⟩
  have found : a.node (⟨0, 1⟩ : DirectiveRef) = .ok (.defineFunction "F" ["x", "y"] ⟨0, 3⟩) := by
    cases here
    rfl
  have bare : a.commentsOf (⟨0, 3⟩ : ScopeRef).ref = none := by
    cases here
    rfl
  obtain ⟨entries, body, _, spliced⟩ :=
    macrosOneLine World.macroWrittenReachable here found (by decide) bare
  have listed : entries = [.decl ⟨0, 0⟩, .stmt ⟨0, 0⟩] := by
    cases here
    cases body
    rfl
  subst listed
  have written : List.Forall₂ (fun e t => a.render (Entry.ref e) = .ok t) [.decl ⟨0, 0⟩, .stmt ⟨0, 0⟩]
      ["x\\\nx", "/* \n */y"] := by
    cases here
    exact .cons rfl (.cons rfl .nil)
  obtain ⟨middle, rendered, _, _, joined⟩ := spliced _ written (by decide)
  have plain (text : String) : a.commented (⟨0, 1⟩ : DirectiveRef).ref text = text := by
    cases here
    rfl
  rw [plain] at rendered
  have whole : a.render ⟨.directive, 0, 1⟩ = .ok "\n#define F(x,y) x\\\\\nx/* \\\n */y\n" := by
    cases here
    rfl
  have same := Except.ok.inj (rendered.symm.trans whole)
  rw [same] at joined
  exact ⟨a, here, whole, joined.trans (by decide)⟩

end CSource
