import CSource.Build.Short
import CSource.Proofs.Writing

/-!
Texts of short forms. An operand contributes a text that depends on what it refers to only, so the nodes that are
stored for the operands before it do not show; every application has the texts of its operands in it, and one pair of
parentheses around it.
-/

namespace CSource

open Build Render Pieces

inductive Arena.OperandText (a : Arena) : Operand → String → Prop where
  | literal (l : Literal) : OperandText a (.literal l) (l.text a.dialect)
  | ident (name : String) : OperandText a (.ident name) name
  | qualName (name : QualName) (cxx : a.dialect = .cxx) : OperandText a (.qualName name) name.text
  | expr {e : ExprRef} {inner : String} (own : e.arena = a.number) (rendered : a.render e.ref = .ok inner) :
      OperandText a (.expr e) ("(" ++ inner ++ ")")
  | var {d : DeclRef} {name : QualName} (own : d.arena = a.number) (named : a.declName d = .ok name) :
      OperandText a (.var d) name.text

variable {a b : Arena} {x y : Operand} {text other : String}

theorem Frame.declName (frame : Frame [] [] a b) {d : DeclRef} {name : QualName} (named : a.declName d = .ok name) :
    b.declName d = .ok name := by
  refine mirroredName (f := .same) (fun k _ n found => ?_) named
  rw [Node.renameSame]
  exact frame.node nofun found

theorem Frame.keepsText (frame : Frame [] [] a b) {r : NodeRef} (rendered : a.render r = .ok text) :
    b.render r = .ok text :=
  frame.text nofun nofun rendered

theorem Arena.OperandText.later (told : a.OperandText x text) (frame : Frame [] [] a b) : b.OperandText x text := by
  cases told with
  | literal l => exact frame.dialect ▸ .literal l
  | ident => exact .ident text
  | qualName name cxx => exact .qualName name (frame.dialect.trans cxx)
  | expr own rendered => exact .expr (own.trans frame.number.symm) (frame.keepsText rendered)
  | var own named => exact .var (own.trans frame.number.symm) (frame.declName named)

section Makes

theorem makesExpr {n : ExprNode} (quiet : a.Quiet)
    (spelled : (a.push .expr n).Spells (Render.expr (a.push .expr n) n) text) : Makes (alloc .expr n) a text :=
  .alloc quiet nofun trivial spelled

theorem exprFrame (n : ExprNode) : Frame [] [] a (a.push .expr n) := .push trivial

theorem makesParen {e : ExprRef} (quiet : a.Quiet) (own : e.arena = a.number) (rendered : a.render e.ref = .ok text) :
    Makes (parenExpr e) a ("(" ++ text ++ ")") := by
  refine .afterOwn own (makesExpr quiet ?_)
  exact Arena.spellsInParens.mpr ⟨text, Arena.spellsOfHandle.mpr ((exprFrame _).keepsText rendered), rfl⟩

theorem makesOperand (quiet : a.Quiet) (told : a.OperandText x text) : Makes (operand x) a text := by
  cases told with
  | literal l =>
    exact .bind (b := a) (x := a) rfl .refl (makesExpr quiet (Arena.spellsOfText.mpr rfl))
  | ident name => exact makesExpr quiet (Arena.spellsOfText.mpr rfl)
  | qualName name cxx =>
    refine .bind (b := a) (x := ()) ?_ .refl (makesExpr quiet (Arena.spellsOfText.mpr rfl))
    exact (runRequire .qualifiedName a).trans (if_pos cxx)
  | expr own rendered => exact makesParen quiet own rendered
  | @var d name own named =>
    refine .afterOwn own (makesExpr quiet ?_)
    have found := (exprFrame (a := a) (.var d)).declName named
    show Arena.Spells _ (ofName (Arena.declName _ d)) _
    rw [found]
    exact Arena.spellsOfText.mpr rfl

theorem Makes.closed {act : Build ExprRef} (made : Makes act a text) : Makes (act >>= parenExpr) a ("(" ++ text ++ ")") :=
  made.thenMake fun _ _ _ quiet own rendered => makesParen quiet own rendered

theorem makesUnary (quiet : a.Quiet) (told : a.OperandText x text) (op : String) :
    Makes (shortUnary op x) a ("(" ++ (op ++ text) ++ ")") := by
  refine .thenMake (makesOperand quiet told) fun h b _ quiet own rendered => ?_
  refine .closed (.afterOwn own (makesExpr quiet (.code op ?_)))
  exact Arena.spellsOfHandle.mpr ((exprFrame _).keepsText rendered)

theorem makesPostfix (quiet : a.Quiet) (told : a.OperandText x text) (op : String) :
    Makes (shortPostfix x op) a ("(" ++ (text ++ op) ++ ")") := by
  refine .thenMake (makesOperand quiet told) fun h b _ quiet own rendered => ?_
  refine .closed (.afterOwn own (makesExpr quiet (.child ((exprFrame _).keepsText rendered) ?_)))
  exact Arena.spellsOfText.mpr rfl

theorem makesBinary (quiet : a.Quiet) (told : a.OperandText x text) (op : String) (tells : a.OperandText y other) :
    Makes (shortBinary x op y) a ("(" ++ (text ++ (op ++ other)) ++ ")") := by
  refine .thenMake (makesOperand quiet told) fun l b frame quiet own rendered => ?_
  refine .thenMake (makesOperand quiet (tells.later frame)) fun r e later quiet own' rendered' => ?_
  have before := (later.trans (exprFrame (.binary op l r))).keepsText rendered
  refine .closed (.afterOwn (own.trans later.number.symm) (.afterOwn own' (makesExpr quiet (.child before ?_))))
  exact .code op (Arena.spellsOfHandle.mpr ((exprFrame _).keepsText rendered'))

theorem makesOperands {xs : List Operand} {texts : List String} (quiet : a.Quiet)
    (told : List.Forall₂ a.OperandText xs texts) :
    ∃ hs b, (xs.mapM operand).run a = .ok hs b ∧ Frame [] [] a b ∧ b.Quiet ∧ (∀ h ∈ hs, h.arena = b.number) ∧
      List.Forall₂ (fun h t => b.render (Handle.ref h) = .ok t) hs texts := by
  induction xs generalizing a texts with
  | nil =>
    cases told
    exact ⟨[], a, rfl, .refl, quiet, nofun, .nil⟩
  | cons x xs ih =>
    cases told with
    | cons first others =>
      obtain ⟨h, b, ran, frame, quiet, own, rendered⟩ := makesOperand quiet first
      obtain ⟨hs, e, rest, later, quiet, owns, written⟩ := ih quiet (others.imp fun _ _ told => told.later frame)
      refine ⟨h :: hs, e, ?_, frame.trans later, quiet, ?_, .cons (later.keepsText rendered) written⟩
      · rw [List.mapM_cons, EStateM.run_bind, ran]
        show ((xs.mapM operand >>= _) : Build _).run b = _
        rw [EStateM.run_bind, rest]
        rfl
      · intro k mem
        rcases List.mem_cons.mp mem with rfl | inside
        · exact own.trans later.number.symm
        · exact owns k inside

theorem makesCall {xs : List Operand} {texts : List String} (quiet : a.Quiet) (told : a.OperandText x text)
    (tells : List.Forall₂ a.OperandText xs texts) :
    Makes (shortCall x xs) a ("(" ++ (text ++ ("(" ++ ",".intercalate texts ++ ")")) ++ ")") := by
  refine .thenMake (makesOperand quiet told) fun h b frame quiet own rendered => ?_
  obtain ⟨hs, e, ran, later, quiet, owns, written⟩ := makesOperands quiet (tells.imp fun _ _ told => told.later frame)
  refine .bind ran later (.closed (.afterOwn (own.trans later.number.symm) (.afterOwnEach owns (makesExpr quiet ?_))))
  have callee := (later.trans (exprFrame (.call h hs))).keepsText rendered
  have args : (e.push .expr (.call h hs)).Spells (commaHandles hs) (",".intercalate texts) :=
    Arena.spellsCommaHandles.mpr ⟨texts, written.imp fun _ _ told => (exprFrame _).keepsText told, rfl⟩
  exact .child callee (Arena.spellsInParens.mpr ⟨_, args, rfl⟩)

theorem makesSubscripts {xs : List Operand} {texts : List String} {base : ExprRef} (quiet : a.Quiet)
    (own : base.arena = a.number) (rendered : a.render base.ref = .ok text)
    (tells : List.Forall₂ a.OperandText xs texts) :
    Makes (subscripts base xs) a (text ++ String.join (texts.map fun t => "[" ++ t ++ "]")) := by
  induction xs generalizing a texts base text with
  | nil =>
    cases tells
    exact ⟨base, a, rfl, .refl, quiet, own, by simpa using rendered⟩
  | cons x xs ih =>
    cases tells with
    | @cons _ t _ texts first others =>
      refine .thenMake (makesOperand quiet first) fun h b frame quiet own' rendered' => ?_
      have before := (frame.trans (exprFrame (.subscript base h))).keepsText rendered
      have inside := Arena.spellsOfHandle.mpr ((exprFrame (.subscript base h)).keepsText rendered')
      have one : Makes (subscriptExpr base h) b (text ++ ("[" ++ t ++ "]")) :=
        .afterOwn (own.trans frame.number.symm) (.afterOwn own' (makesExpr quiet
          (.child before (Arena.spellsInBrackets.mpr ⟨_, inside, rfl⟩))))
      rw [List.map_cons, String.join_cons, ← String.append_assoc]
      refine .thenMake one fun k e later quiet own rendered => ?_
      exact ih quiet own rendered (others.imp fun _ _ told => told.later (frame.trans later))

theorem makesIndex {xs : List Operand} {texts : List String} (quiet : a.Quiet) (told : a.OperandText x text)
    (tells : List.Forall₂ a.OperandText xs texts) :
    Makes (shortIndex x xs) a ("(" ++ (text ++ String.join (texts.map fun t => "[" ++ t ++ "]")) ++ ")") := by
  refine .thenMake (makesOperand quiet told) fun h b frame quiet own rendered => ?_
  exact .closed (makesSubscripts quiet own rendered (tells.imp fun _ _ told => told.later frame))

end Makes

end CSource
