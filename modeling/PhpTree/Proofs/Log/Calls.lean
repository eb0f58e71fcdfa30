import PhpTree.Name.Input
import PhpTree.Name.Slice
import PhpTree.Proofs.Node.DocComment

/-!
# What calls leave in the log

A call that is refused leaves one line in the log, which tells why, and a call that is not leaves
none. This goes through sequencing (`Attempt.Explained.bind`): what ends well has reported nothing
so far, and a refusal ends all that follows. Setting a doc comment is never refused, and its lines
tell what it did instead. The log of a sequence of calls is what they leave, one after the other.
Lines of different sorts begin differently, so that they can be counted.
-/

namespace PhpTree

/-! ## Refusals -/

/-- The line that tells of a fault. If it is one of a slice, `subject` is the text of the name. -/
inductive Fault.Line (subject : String) : Fault → String → Prop
  | offset (value : Int) : Line subject (.outOfBounds .offset value)
      ("DEBUG slice offset " ++ toString value ++ " out of bounds for `" ++ subject ++ "`")
  | length (value : Int) : Line subject (.outOfBounds .length value)
      ("DEBUG slice length " ++ toString value ++ " out of bounds for `" ++ subject ++ "`")
  | emptyPartList : Line subject (.invalidArgument "Name part array cannot be empty")
      "DEBUG rejecting empty name part list"
  | unsupportedInput : Line subject (.invalidArgument "Expected string, part list or Name node")
      "DEBUG rejecting name input that is neither a string, a part list nor a name"

namespace Attempt

variable {α β : Type} {subject : String}

/-- All that is reported is why the computation is refused, if it is. -/
structure Explained (subject : String) (x : Attempt α) : Prop where
  ok : ∀ a, x.result = .ok a → x.log = []
  refused : ∀ fault, x.result = .error fault →
    ∃ m : Message, x.log = [m] ∧ fault.Line subject m.line

theorem explained_pure (a : α) : Explained subject (pure a : Attempt α) where
  ok _ _ := rfl
  refused _ h := nomatch h

theorem explained_refuse {fault : Fault} {m : Message} (hline : fault.Line subject m.line) :
    Explained subject (refuse fault m : Attempt α) where
  ok _ h := nomatch h
  refused fault' h := by
    cases h
    exact ⟨m, rfl, hline⟩

/-- One computation after the other is explained if each of them is. -/
theorem Explained.bind {x : Attempt α} {f : α → Attempt β} (hx : x.Explained subject)
    (hf : ∀ a, (f a).Explained subject) : (x >>= f).Explained subject := by
  cases hresult : x.result with
  | ok a =>
    have hlog : (x >>= f).log = (f a).log := by
      rw [log_bind, hx.ok a hresult, hresult]
      rfl
    have hbind : (x >>= f).result = (f a).result := by
      rw [result_bind, hresult]
      rfl
    constructor
    · intro b hb
      rw [hlog]
      exact (hf a).ok b (hbind ▸ hb)
    · intro fault hfault
      rw [hlog]
      exact (hf a).refused fault (hbind ▸ hfault)
  | error fault =>
    have hlog : (x >>= f).log = x.log := by
      rw [log_bind, hresult]
      exact List.append_nil x.log
    have hbind : (x >>= f).result = .error fault := by
      rw [result_bind, hresult]
      rfl
    constructor
    · intro b hb
      rw [hbind] at hb
      cases hb
    · intro fault' hfault
      rw [hbind] at hfault
      cases hfault
      rw [hlog]
      exact hx.refused fault hresult

theorem Explained.map {x : Attempt α} (hx : x.Explained subject) (f : α → β) :
    (f <$> x).Explained subject := by
  rw [map_eq_pure_bind]
  exact hx.bind fun a => explained_pure (f a)

end Attempt

open Attempt

/-! ## Names -/

namespace NameInput

theorem explained_prepare (subject : String) (input : NameInput) :
    input.prepare.Explained subject := by
  cases input with
  | text s => exact explained_pure s
  | name x => exact explained_pure x.text
  | parts ps =>
    cases ps with
    | nil => exact explained_refuse .emptyPartList
    | cons p ps => exact explained_pure (Name.joinParts (p :: ps))

theorem explained_refuseValue {α : Type} (subject : String) :
    (refuseValue : Attempt α).Explained subject :=
  explained_refuse .unsupportedInput

theorem explained_ofValue (subject : String) (v : Value) : (ofValue v).Explained subject := by
  unfold ofValue
  split
  · exact explained_pure _
  · exact explained_pure _
  · split
    · exact explained_pure _
    · exact explained_refuseValue subject
  · exact explained_refuseValue subject

end NameInput

theorem Name.explained_build (subject : String) (kind : NameKind) (input : NameInput)
    (attributes : Attributes) : (Name.build kind input attributes).Explained subject :=
  (input.explained_prepare subject).bind fun _ => explained_pure _

theorem NameKind.explained_concat (subject : String) (kind : NameKind) (a b : Option NameInput)
    (attributes : Attributes) : (kind.concat a b attributes).Explained subject := by
  cases a with
  | none =>
    cases b with
    | none => exact explained_pure none
    | some b => exact (Name.explained_build subject kind b attributes).map some
  | some a =>
    cases b with
    | none => exact (Name.explained_build subject kind a attributes).map some
    | some b =>
      exact (a.explained_prepare subject).bind fun _ =>
        (b.explained_prepare subject).bind fun _ => explained_pure _

namespace Name

theorem explained_refuseSlice {α : Type} (x : Name) (bound : SliceBound) (value : Int) :
    (x.refuseSlice bound value : Attempt α).Explained x.text := by
  cases bound with
  | offset => exact explained_refuse (.offset value)
  | length => exact explained_refuse (.length value)

theorem explained_sliceRange (x : Name) (offset : Int) (length : Option Int) :
    (x.sliceRange offset length).Explained x.text := by
  unfold sliceRange
  dsimp only
  split
  · exact x.explained_refuseSlice .offset offset
  · split
    · exact explained_pure _
    · split
      · exact x.explained_refuseSlice .length _
      · exact explained_pure _

theorem explained_slice (x : Name) (offset : Int) (length : Option Int) :
    (x.slice offset length).Explained x.text := by
  unfold slice
  split
  · exact explained_pure x.withoutFirst
  · exact (x.explained_sliceRange offset length).bind fun _ => explained_pure _

end Name

/-! ## Doc comments -/

/-- The lines that setting a doc comment leaves, by what is stored for comments before. -/
inductive DocCommentReport : Option Value → List String → Prop
  | absent : DocCommentReport none ["TRACE appending doc comment after 0 comment(s)"]
  /-- A doc comment that is the last one is replaced. -/
  | replacing (front : List Comment) {d : Comment} (h : d.isDoc = true) :
      DocCommentReport (some (.comments (front ++ [d]))) ["TRACE replacing trailing doc comment"]
  /-- Behind other comments there is one more. -/
  | appending {cs : List Comment} (h : ∀ d ∈ cs.getLast?, d.isDoc = false) :
      DocCommentReport (some (.comments cs))
        ["TRACE appending doc comment after " ++ toString cs.length ++ " comment(s)"]
  /-- A value of another shape, null for one, makes room for the first comment. -/
  | overwriting {v : Value} (h : v.comments? = none) :
      DocCommentReport (some v)
        ["TRACE overwriting non-comment `comments` attribute",
          "TRACE appending doc comment after 0 comment(s)"]

/-- The lines that a computation leaves in the log. -/
def Logged.lines {α : Type} (x : Logged α) : List String :=
  x.log.map Message.line

namespace TreeNode

variable {α : Type} [TreeNode α]

theorem lines_setDocComment (x : α) (c : Comment) : (setDocComment x c).lines =
    (documentedComments x).lines ++ (reportDocComment (documentedComments x).value).lines := by
  have hlog : (setDocComment x c).log = (documentedComments x).log ++
      ((reportDocComment (documentedComments x).value).log ++ []) := rfl
  rw [Logged.lines, hlog, List.append_nil, List.map_append]
  rfl

theorem lines_reportDocComment_nil : (reportDocComment []).lines =
    ["TRACE appending doc comment after 0 comment(s)"] :=
  rfl

theorem docCommentReport_comments (cs : List Comment) :
    DocCommentReport (some (.comments cs)) (reportDocComment cs).lines := by
  unfold reportDocComment
  split
  · next h =>
    obtain ⟨d, hlast, hdoc⟩ := (Option.any_eq_true _ _).1 h
    obtain ⟨front, rfl⟩ := List.getLast?_eq_some_iff.1 hlast
    exact .replacing front hdoc
  · next h =>
    refine .appending fun d hlast => ?_
    rw [Option.mem_def.1 hlast] at h
    exact Bool.eq_false_iff.2 h

/-- Setting a doc comment tells what it does with the comments that are stored. -/
theorem docCommentReport (x : α) (c : Comment) :
    DocCommentReport (attribute? x Key.comments) (setDocComment x c).lines := by
  rw [lines_setDocComment]
  unfold documentedComments
  cases attribute? x Key.comments with
  | none => exact .absent
  | some v =>
    cases v with
    | comments cs => exact docCommentReport_comments cs
    | _ =>
      show DocCommentReport (some _)
        (["TRACE overwriting non-comment `comments` attribute"] ++ (reportDocComment []).lines)
      rw [lines_reportDocComment_nil]
      exact .overwriting rfl

end TreeNode

/-! ## Calls -/

/-- A call of an operation that may report something, with its arguments. -/
inductive Call : Type 1 where
  | slice (x : Name) (offset : Int) (length : Option Int)
  | prepare (input : NameInput)
  | build (kind : NameKind) (input : NameInput) (attributes : Attributes)
  | concat (kind : NameKind) (a b : Option NameInput) (attributes : Attributes)
  | read (v : Value)
  | setDocComment {α : Type} [TreeNode α] (x : α) (c : Comment)

namespace Attempt

variable {α : Type}

/-- The fault that a computation is refused with, if it is. -/
def fault? (x : Attempt α) : Option Fault :=
  match x.result with
  | .ok _ => none
  | .error fault => some fault

/-- The computation, with nothing kept of how it ends but the fault. -/
def forget (x : Attempt α) : Logged (Option Fault) :=
  ⟨x.fault?, x.log⟩

/-- What there is to say about the lines of a computation, by the fault it is refused with. -/
def ExplainedBy (subject : String) (lines : List String) : Option Fault → Prop
  | none => lines = []
  | some fault => ∃ line, lines = [line] ∧ fault.Line subject line

theorem Explained.explainedBy {subject : String} {x : Attempt α} (h : x.Explained subject) :
    ExplainedBy subject x.forget.lines x.fault? := by
  have hlines : x.forget.lines = x.log.map Message.line := rfl
  rw [hlines]
  unfold fault?
  cases hresult : x.result with
  | ok a =>
    rw [h.ok a hresult]
    rfl
  | error fault =>
    obtain ⟨m, hlog, hline⟩ := h.refused fault hresult
    exact ⟨m.line, by rw [hlog, List.map_singleton], hline⟩

end Attempt

namespace Call

/-- Makes the call. It yields the fault that it is refused with, if it is. -/
def perform : Call → Logged (Option Fault)
  | slice x offset length => (x.slice offset length).forget
  | prepare input => input.prepare.forget
  | build kind input attributes => (Name.build kind input attributes).forget
  | concat kind a b attributes => (kind.concat a b attributes).forget
  | read v => (NameInput.ofValue v).forget
  | setDocComment x c => (fun _ => none) <$> TreeNode.setDocComment x c

/-- What a call leaves in the log: setting a doc comment what it does with the comments that are
stored, and any other call the reason why it is refused, if it is. The reason names the text of the
name that is sliced. -/
def Leaves : Call → List String → Prop
  | slice x offset length, lines =>
    ExplainedBy x.text lines (slice x offset length).perform.value
  | setDocComment x _, lines => DocCommentReport (TreeNode.attribute? x Key.comments) lines
  | call, lines => ExplainedBy "" lines call.perform.value

theorem leaves_lines (call : Call) : call.Leaves call.perform.lines := by
  cases call with
  | slice x offset length => exact (x.explained_slice offset length).explainedBy
  | prepare input => exact (input.explained_prepare "").explainedBy
  | build kind input attributes =>
    exact (Name.explained_build "" kind input attributes).explainedBy
  | concat kind a b attributes => exact (kind.explained_concat "" a b attributes).explainedBy
  | read v => exact (NameInput.explained_ofValue "" v).explainedBy
  | setDocComment x c =>
    have hlog : (setDocComment x c).perform.log = (TreeNode.setDocComment x c).log :=
      List.append_nil _
    rw [Logged.lines, hlog]
    exact TreeNode.docCommentReport x c

/-- The call sets a doc comment. -/
def isEdit : Call → Bool
  | setDocComment _ _ => true
  | _ => false

/-- The call sets a doc comment where something else than comments is stored. -/
def overwrites : Call → Bool
  | setDocComment x _ => (TreeNode.attribute? x Key.comments).any fun v => v.comments?.isNone
  | _ => false

end Call

/-! ## Sequences of calls -/

/-- Makes calls one after the other. -/
def performAll (calls : List Call) : Logged (List (Option Fault)) :=
  calls.mapM Call.perform

theorem performAll_cons (call : Call) (calls : List Call) :
    performAll (call :: calls) = ⟨call.perform.value :: (performAll calls).value,
      call.perform.log ++ (performAll calls).log⟩ := by
  have hbind : performAll (call :: calls) = ⟨call.perform.value :: (performAll calls).value,
      call.perform.log ++ ((performAll calls).log ++ [])⟩ := by
    rw [performAll, List.mapM_cons]
    rfl
  rw [hbind, List.append_nil]

/-- The lines of a sequence of calls are those of each of them, in order. -/
theorem lines_performAll (calls : List Call) :
    (performAll calls).lines = calls.flatMap fun call => call.perform.lines := by
  induction calls with
  | nil => rfl
  | cons call calls ih =>
    rw [performAll_cons, Logged.lines, List.map_append, List.flatMap_cons, ← ih]
    rfl

theorem value_performAll (calls : List Call) :
    (performAll calls).value = calls.map fun call => call.perform.value := by
  induction calls with
  | nil => rfl
  | cons call calls ih => rw [performAll_cons, List.map_cons, ih]

/-! ## Sorts of lines -/

/-- The first characters of the line are those of `front`. -/
def beginsWith (front line : String) : Bool :=
  front.toList.isPrefixOf line.toList

/-- The line tells of a refusal. -/
def tellsRefusal (line : String) : Bool :=
  beginsWith "DEBUG " line

/-- The line tells where a doc comment is put. -/
def tellsEdit (line : String) : Bool :=
  beginsWith "TRACE replacing " line || beginsWith "TRACE appending " line

/-- The line tells that something else than comments is dropped. -/
def tellsOverwriting (line : String) : Bool :=
  beginsWith "TRACE overwriting " line

/-- What a line begins with is told by a front that is long enough, whatever is behind it. -/
theorem beginsWith_append {front s : String} (t : String) (h : front.length ≤ s.length) :
    beginsWith front (s ++ t) = beginsWith front s := by
  rw [Bool.eq_iff_iff, beginsWith, beginsWith, List.isPrefixOf_iff_prefix,
    List.isPrefixOf_iff_prefix, String.toList_append]
  constructor
  · intro hfront
    exact List.prefix_of_prefix_length_le hfront (List.prefix_append _ _) h
  · intro hfront
    exact hfront.trans (List.prefix_append _ _)

/-- How many lines there are of each sort. -/
structure Counts (lines : List String) (refusals edits overwritings : Bool) : Prop where
  refusals : lines.countP tellsRefusal = refusals.toNat
  edits : lines.countP tellsEdit = edits.toNat
  overwritings : lines.countP tellsOverwriting = overwritings.toNat

instance (lines : List String) (refusals edits overwritings : Bool) :
    Decidable (Counts lines refusals edits overwritings) :=
  decidable_of_iff (lines.countP tellsRefusal = refusals.toNat ∧
      lines.countP tellsEdit = edits.toNat ∧ lines.countP tellsOverwriting = overwritings.toNat)
    ⟨fun h => ⟨h.1, h.2.1, h.2.2⟩, fun h => ⟨h.refusals, h.edits, h.overwritings⟩⟩

/-- The sort of a line is told by its first characters. -/
theorem counts_of_append {s : String} (t : String) {refusals edits overwritings : Bool}
    (hlength : 18 ≤ s.length) (h : Counts [s] refusals edits overwritings) :
    Counts [s ++ t] refusals edits overwritings := by
  -- No front that tells a sort is longer than 18 characters.
  have hfront {front : String} (hshort : front.length ≤ 18) :
      beginsWith front (s ++ t) = beginsWith front s :=
    beginsWith_append t (Nat.le_trans hshort hlength)
  have hcount {p : String → Bool} (hp : p (s ++ t) = p s) : [s ++ t].countP p = [s].countP p := by
    rw [List.countP_singleton, List.countP_singleton, hp]
  have hedit : tellsEdit (s ++ t) = tellsEdit s := by
    rw [tellsEdit, tellsEdit, hfront (by decide), hfront (by decide)]
  exact ⟨(hcount (hfront (by decide))).trans h.refusals, (hcount hedit).trans h.edits,
    (hcount (hfront (by decide))).trans h.overwritings⟩

theorem Fault.Line.counts {subject line : String} {fault : Fault} (h : fault.Line subject line) :
    Counts [line] true false false := by
  cases h with
  | offset value =>
    rw [String.append_assoc, String.append_assoc, String.append_assoc]
    exact counts_of_append _ (by decide) (by decide)
  | length value =>
    rw [String.append_assoc, String.append_assoc, String.append_assoc]
    exact counts_of_append _ (by decide) (by decide)
  | emptyPartList => decide
  | unsupportedInput => decide

theorem Attempt.ExplainedBy.counts {subject : String} {lines : List String} :
    ∀ {fault? : Option Fault}, ExplainedBy subject lines fault? →
      Counts lines fault?.isSome false false
  | none, h => by
    cases h
    exact ⟨rfl, rfl, rfl⟩
  | some _, ⟨_, hlines, hline⟩ => by
    rw [hlines]
    exact hline.counts

theorem DocCommentReport.counts {slot : Option Value} {lines : List String}
    (h : DocCommentReport slot lines) :
    Counts lines false true (slot.any fun v => v.comments?.isNone) := by
  cases h with
  | absent => decide
  | replacing front h =>
    show Counts _ false true false
    decide
  | appending h =>
    show Counts _ false true false
    rw [String.append_assoc]
    exact counts_of_append _ (by decide) (by decide)
  | overwriting h =>
    rw [Option.any_some, h]
    decide

theorem Call.counts (call : Call) :
    Counts call.perform.lines call.perform.value.isSome call.isEdit call.overwrites := by
  have h := call.leaves_lines
  cases call with
  | setDocComment x c => exact DocCommentReport.counts h
  | _ => exact Attempt.ExplainedBy.counts h

/-- Where each call leaves one line of a sort or none, there are as many such lines as there are
calls that leave one. -/
theorem countP_lines_performAll {p : String → Bool} {q : Call → Bool}
    (h : ∀ call, call.perform.lines.countP p = (q call).toNat) (calls : List Call) :
    (performAll calls).lines.countP p = calls.countP q := by
  rw [lines_performAll]
  induction calls with
  | nil => rfl
  | cons call calls ih =>
    rw [List.flatMap_cons, List.countP_append, ih, h, List.countP_cons, Nat.add_comm]
    cases q call <;> rfl

/-- Whatever calls are made, the log is what they leave in it, line for line, one after the other:
one line for each refusal, which tells its reason, one for each doc comment, which tells whether it
replaces one or how many comments it goes behind, and one before it where something else is
overwritten. So there are as many lines of refusals as refused calls, as many of doc comments as
calls that set one, and as many of what is overwritten as calls that overwrite something. Two empty
lists of parts are refused once. -/
theorem log_tells_refusals_and_edits_once :
    (∀ call : Call, call.Leaves call.perform.lines) ∧
    (∀ calls : List Call,
      (performAll calls).value = calls.map (fun call => call.perform.value) ∧
      (performAll calls).lines = calls.flatMap (fun call => call.perform.lines) ∧
      (performAll calls).lines.countP tellsRefusal =
        (performAll calls).value.countP Option.isSome ∧
      (performAll calls).lines.countP tellsEdit = calls.countP Call.isEdit ∧
      (performAll calls).lines.countP tellsOverwriting = calls.countP Call.overwrites) ∧
    (∀ (kind : NameKind) (attributes : Attributes),
      (Call.concat kind (some (.parts [])) (some (.parts [])) attributes).perform.lines =
        ["DEBUG rejecting empty name part list"]) := by
  refine ⟨Call.leaves_lines, fun calls => ⟨?_, ?_, ?_, ?_, ?_⟩, fun _ _ => rfl⟩
  · exact value_performAll calls
  · exact lines_performAll calls
  · rw [value_performAll, List.countP_map]
    exact countP_lines_performAll (fun call => call.counts.refusals) calls
  · exact countP_lines_performAll (fun call => call.counts.edits) calls
  · exact countP_lines_performAll (fun call => call.counts.overwritings) calls

end PhpTree
