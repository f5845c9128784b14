import CSource.Proofs.Placing

/-!
Texts of nodes that have just been stored. A text is written from the texts of the parts, which is an induction over
whatever has a text; and a node that was stored last has no comments, so its text is that of its pieces.
-/

namespace CSource

open Build Render

namespace Arena

variable {a : Arena} {r : NodeRef} {text : String}

theorem writtenInduct {P : NodeRef → String → Prop}
    (step : ∀ r text, a.render r = .ok text → (∀ k t, a.Writes r k → a.render k = .ok t → P k t) → P r text)
    (rendered : a.render r = .ok text) : P r text := by
  have within (depth : Nat) : ∀ r segs text, segmentsWithin a depth r = .ok segs → a.render r = .ok text →
      P r text := by
    induction depth with
    | zero => exact fun _ _ _ done => nomatch done
    | succ depth ih =>
      intro r segs text done rendered
      obtain ⟨body, written, _⟩ := segmentsSucc.mp done
      refine step r text rendered fun k t writes told => ?_
      obtain ⟨inside, below⟩ := (assembledAll written).2 k writes
      exact ih k inside t below told
  obtain ⟨segs, done, _⟩ := renderedSegments rendered
  exact within a.depthBound r segs text done rendered

theorem Spells.written {ps : Pieces} {k : NodeRef} (spelled : a.Spells ps text) (mem : .child k ∈ ps) :
    ∃ t, a.render k = .ok t := by
  induction spelled with
  | nil => contradiction
  | code s spelled ih => exact ih (by simpa using mem)
  | child written spelled ih =>
    rcases List.mem_cons.mp mem with same | later
    · cases same
      exact ⟨_, written⟩
    · exact ih later

theorem commentedBare (bare : a.commentsOf r = none) (inner : String) : a.commented r inner = inner := by
  simp [commented, bare]

theorem renderedAs {c : Category} {h : Handle c} {n : Node c} (here : a.node h = .ok n) (inner : c ≠ .scope) :
    a.render h.ref = .ok text ↔ ∃ code, a.Spells (Render.node a c n) code ∧ text = a.commented h.ref code := by
  have plain : continuesLines a h.ref = false := by
    cases c <;> first | exact absurd rfl inner | rfl
  rw [renderedIff, piecesOf here, plain]
  rfl

theorem renderedBare {c : Category} {h : Handle c} {n : Node c} (here : a.node h = .ok n) (inner : c ≠ .scope)
    (bare : a.commentsOf h.ref = none) : a.render h.ref = .ok text ↔ a.Spells (Render.node a c n) text := by
  rw [renderedAs here inner]
  simp [commentedBare bare]

/-- Nothing is attached to a node before it is stored. -/
def Quiet (a : Arena) : Prop := ∀ r, a.Beyond r → a.commentsOf r = none

theorem AllSettled.quiet (settled : a.AllSettled) : a.Quiet :=
  fun _ beyond => settled.comments fun here => absurd (here beyond.own) (Nat.not_lt.mpr beyond.index)

theorem Quiet.push (quiet : a.Quiet) {c : Category} (n : Node c) : (a.push c n).Quiet := by
  intro r beyond
  have earlier : a.Beyond r := by
    refine ⟨by simpa using beyond.own, Nat.le_trans ?_ beyond.index⟩
    by_cases same : c = r.category
    · subst same
      simp
    · exact Nat.le_of_eq (congrArg Array.size (nodesPushOther a same n).symm)
  simpa [commentsOf] using quiet r earlier

end Arena

/-- The action succeeds, leaves all there is as it is, and hands out a node of that text. -/
def Makes {c : Category} (act : Build (Handle c)) (a : Arena) (text : String) : Prop :=
  ∃ h b, act.run a = .ok h b ∧ Frame [] [] a b ∧ b.Quiet ∧ h.arena = b.number ∧ b.render h.ref = .ok text

namespace Makes

variable {a : Arena} {c d : Category} {text : String}

theorem unique {act : Build (Handle c)} {other : String} (first : Makes act a text) (second : Makes act a other) :
    text = other := by
  obtain ⟨h, b, ran, _, _, _, told⟩ := first
  obtain ⟨_, _, again, _, _, _, also⟩ := second
  cases ran.symm.trans again
  exact Except.ok.inj (told.symm.trans also)

theorem bind {α : Type} {act : Build α} {f : α → Build (Handle c)} {x : α} {b : Arena} (ran : act.run a = .ok x b)
    (frame : Frame [] [] a b) (rest : Makes (f x) b text) : Makes (act >>= f) a text := by
  obtain ⟨h, e, done, later, quiet, own, told⟩ := rest
  refine ⟨h, e, ?_, frame.trans later, quiet, own, told⟩
  rw [EStateM.run_bind, ran]
  exact done

theorem thenMake {act : Build (Handle d)} {f : Handle d → Build (Handle c)} {first : String} (made : Makes act a first)
    (rest : ∀ h b, Frame [] [] a b → b.Quiet → h.arena = b.number → b.render h.ref = .ok first → Makes (f h) b text) :
    Makes (act >>= f) a text := by
  obtain ⟨h, b, ran, frame, quiet, own, told⟩ := made
  exact bind ran frame (rest h b frame quiet own told)

theorem afterOwn {h : Handle d} {f : Unit → Build (Handle c)} (own : h.arena = a.number) (rest : Makes (f ()) a text) :
    Makes (Build.own h >>= f) a text :=
  bind (by rw [runOwns, Arena.owns, own, beq_self_eq_true, if_pos rfl]) .refl rest

theorem afterOwnEach {hs : List (Handle d)} {f : Unit → Build (Handle c)} (own : ∀ h ∈ hs, h.arena = a.number)
    (rest : Makes (f ()) a text) : Makes (Build.ownEach hs >>= f) a text :=
  bind ((runOwnEachIff hs a).mpr fun h mem => by simp [Arena.owns, own h mem]) .refl rest

theorem alloc {n : Node c} (quiet : a.Quiet) (inner : c ≠ .scope) (unmarked : Node.Unmarked c n)
    (spelled : (a.push c n).Spells (Render.node (a.push c n) c n) text) : Makes (alloc c n) a text := by
  refine ⟨a.nextHandle c, a.push c n, runAlloc c n a, .push unmarked, quiet.push n, by simp [Arena.nextHandle], ?_⟩
  have bare : (a.push c n).commentsOf (a.nextHandle c).ref = none := by
    simpa [Arena.commentsOf] using quiet (a.nextHandle c).ref ⟨rfl, Nat.le_refl _⟩
  exact (Arena.renderedBare Arena.nodePushed inner bare).mpr spelled

end Makes

end CSource
