import PhpTree.Node.DocComment
import PhpTree.Proofs.Node.AttributeRuns

/-!
# Setting doc comments

Setting a doc comment changes the comments of a node at their end only, where it takes the place of
the doc comment that is there, if there is one. So the comments in front of it stay the same however
often it is set, and of all doc comments that are set in a row the last one is left.
-/

namespace PhpTree

/-! ## Comments in front of the doc comment -/

namespace Comment

theorem beforeDoc_of_isDoc {d : Comment} (front : List Comment) (h : d.isDoc = true) :
    beforeDoc (front ++ [d]) = front := by
  have hlast : (front ++ [d]).getLast?.any isDoc = true := by
    rw [List.getLast?_concat]
    exact h
  rw [beforeDoc, if_pos hlast, List.dropLast_concat]

theorem beforeDoc_of_not_isDoc {cs : List Comment} (h : ∀ d ∈ cs.getLast?, d.isDoc = false) :
    beforeDoc cs = cs := by
  have hlast : ¬ cs.getLast?.any isDoc = true := by
    rw [Option.any_eq_true]
    rintro ⟨d, hd, hdoc⟩
    rw [h d hd] at hdoc
    cases hdoc
  rw [beforeDoc, if_neg hlast]

end Comment

namespace TreeNode

variable {α : Type} [TreeNode α]

/-- Sets doc comments one after the other. -/
def setDocComments (x : α) (cs : List Comment) : Logged α :=
  cs.foldlM setDocComment x

/-- The comments that a doc comment is added to are those that the node shows. -/
theorem value_documentedComments (x : α) : (documentedComments x).value = comments x := by
  have hcomments : comments x = ((attribute? x Key.comments).bind Value.comments?).getD [] := rfl
  rw [documentedComments, hcomments]
  cases attribute? x Key.comments with
  | none => rfl
  | some value => cases value <;> rfl

theorem value_setDocComment_eq (x : α) (c : Comment) :
    (setDocComment x c).value = setAttribute x Key.comments
      (.comments (Comment.beforeDoc (comments x) ++ [c.asDoc])) := by
  rw [← value_documentedComments]
  rfl

variable [LawfulTreeNode α]

theorem attribute?_setDocComment (x : α) (c : Comment) :
    attribute? (setDocComment x c).value Key.comments =
      some (.comments (Comment.beforeDoc (comments x) ++ [c.asDoc])) := by
  rw [value_setDocComment_eq, attribute?_setAttribute, if_pos rfl]

theorem comments_setDocComment (x : α) (c : Comment) :
    comments (setDocComment x c).value = Comment.beforeDoc (comments x) ++ [c.asDoc] := by
  have h := attribute?_setDocComment x c
  rw [attribute?] at h
  rw [comments, Bag.comments, h]
  rfl

/-- Of two doc comments that are set the second one stays. -/
theorem setDocComment_setDocComment (x : α) (c d : Comment) :
    (setDocComment (setDocComment x c).value d).value = (setDocComment x d).value := by
  rw [value_setDocComment_eq, comments_setDocComment, Comment.beforeDoc_of_isDoc _ rfl,
    value_setDocComment_eq, setAttribute_setAttribute, value_setDocComment_eq]

theorem value_setDocComments_concat (x : α) (cs : List Comment) (c : Comment) :
    (setDocComments x (cs ++ [c])).value = (setDocComment x c).value := by
  induction cs generalizing x with
  | nil => rfl
  | cons d cs ih =>
    have hstep : (setDocComments x (d :: cs ++ [c])).value =
        (setDocComments (setDocComment x d).value (cs ++ [c])).value := rfl
    rw [hstep, ih, setDocComment_setDocComment]

/-! ## What setting a doc comment does -/

/-- What the node `y` is when `c` became the doc comment of the node `x`. -/
structure Documented (x y : α) (c : Comment) : Prop where
  /-- A trailing doc comment makes room. -/
  replaced : ∀ front d, comments x = front ++ [d] → d.isDoc = true →
    comments y = front ++ [{ c with kind := .doc }]
  /-- Other comments stay, if there are any. -/
  appended : (∀ d ∈ (comments x).getLast?, d.isDoc = false) →
    comments y = comments x ++ [{ c with kind := .doc }]
  docComment? : docComment? y = some { c with kind := .doc }
  stored : attribute? y Key.comments = some (.comments (comments y))
  others : ∀ key, key ≠ Key.comments → attribute? y key = attribute? x key
  body : SameBody x y

theorem documented_setDocComment (x : α) (c : Comment) :
    Documented x (setDocComment x c).value c := by
  have hcomments := comments_setDocComment x c
  refine ⟨?_, ?_, ?_, ?_, ?_, ?_⟩
  · intro front d hx hd
    rw [hcomments, hx, Comment.beforeDoc_of_isDoc front hd]
    rfl
  · intro hlast
    rw [hcomments, Comment.beforeDoc_of_not_isDoc hlast]
    rfl
  · rw [docComment?, hcomments, List.getLast?_concat]
    rfl
  · rw [attribute?_setDocComment, hcomments]
  · intro key hkey
    rw [value_setDocComment_eq, attribute?_setAttribute, if_neg hkey]
  · rw [value_setDocComment_eq]
    exact sameBody_withAttributes x _

/-- What setting doc comments does to the node `x`: each changes the end of the comments and nothing
else, and of several the last one is as if it had been set alone. -/
structure TakesDocComments (x : α) : Prop where
  documented : ∀ c, Documented x (setDocComment x c).value c
  last_wins : ∀ cs c, (setDocComments x (cs ++ [c])).value = (setDocComment x c).value

theorem takesDocComments (x : α) : TakesDocComments x where
  documented := documented_setDocComment x
  last_wins := value_setDocComments_concat x

/-- On nodes of every variant, whatever they hold under the key for comments, a doc comment takes
the place of the doc comment behind all others, or stands behind them; nothing else changes, and
of doc comments that are set in a row just the last one counts. -/
theorem last_docComment_wins :
    (∀ x : Name, TakesDocComments x) ∧
    (∀ x : Interpolated, TakesDocComments x) ∧
    (∀ x : StringPart, TakesDocComments x) ∧
    (∀ x : InlineHtml, TakesDocComments x) ∧
    ∀ x : Node, TakesDocComments x :=
  ⟨takesDocComments, takesDocComments, takesDocComments, takesDocComments, takesDocComments⟩

end TreeNode

end PhpTree
