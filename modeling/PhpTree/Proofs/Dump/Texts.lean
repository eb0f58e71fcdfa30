import PhpTree.Proofs.Dump.Contents
import PhpTree.Proofs.Json.Tight

/-!
# The two texts of a dump

Both texts of a dump are JSON texts, and they are read back as the dump: the indented one as it is,
the compact one with the members of all objects in the order of the bytes of their keys. As no key
repeats, the two values differ in the order of members only, and nothing is lost in either.
-/

namespace PhpTree

open Json

/-- What holds of the two texts of a dump. -/
structure Json.FaithfullyWritten (x : Json) : Prop where
  /-- Both texts are derivable in the grammar. -/
  compact_derivable : Grammar.Text x.dumpText.toList
  pretty_derivable : Grammar.Text x.prettyDumpText.toList
  /-- Both texts are read to their end, strings and all. -/
  read_compact : read x.dumpText = some x.sorted
  read_pretty : read x.prettyDumpText = some x
  /-- What is read differs in the order of members only. -/
  same : SameUpToOrder x.sorted x
  /-- No object that is read has a key twice. -/
  compact_keysDistinct : x.sorted.KeysDistinct
  pretty_keysDistinct : x.KeysDistinct
  /-- In the compact text the keys ascend by their bytes. -/
  compact_keysAscend : x.sorted.KeysAscend
  /-- In the compact text no blank stands outside of the strings. -/
  compact_tight : ∀ c ∈ outsideStrings .outside x.dumpText.toList, ¬ Grammar.IsBlank c

theorem Json.WellFormed.faithfullyWritten {x : Json} (h : x.WellFormed) : x.FaithfullyWritten where
  compact_derivable := (textOf_compact h.numbersValid.sorted).derivable
  pretty_derivable := (textOf_pretty h.numbersValid).derivable
  read_compact := Json.read_compact h.numbersValid.sorted
  read_pretty := Json.read_pretty h.numbersValid
  same := sameUpToOrder_sorted h.keysDistinct
  compact_keysDistinct := (keysAscend_sorted x).keysDistinct
  pretty_keysDistinct := h.keysDistinct
  compact_keysAscend := keysAscend_sorted x
  compact_tight := (tight_compact h.numbersValid.sorted).no_blank

/-- Both texts are read as values in which there is what `FoundIn` asks for. -/
structure Json.FoundWhenRead (x : Json) (FoundIn : Json → Prop) : Prop where
  compact : ∃ y, read x.dumpText = some y ∧ FoundIn y
  pretty : ∃ y, read x.prettyDumpText = some y ∧ FoundIn y

theorem Json.FaithfullyWritten.foundWhenRead {x : Json} (h : x.FaithfullyWritten)
    {FoundIn : Json → Prop} (hfound : ∀ write, Reorders write → FoundIn (write x)) :
    x.FoundWhenRead FoundIn where
  compact := ⟨x.sorted, h.read_compact, hfound sorted reorders_sorted⟩
  pretty := ⟨x, h.read_pretty, hfound id reorders_id⟩

/-- All dumps are written faithfully: those of nodes, of forests, of values, of attributes, of
comments and of positions. And what is read from either text shows them: every string, every key and
all else that they hold, as it is stored, and nothing besides. -/
theorem dumps_faithfullyWritten :
    (∀ x : Node, x.toJson.FaithfullyWritten ∧ x.toJson.FoundWhenRead x.FoundIn) ∧
      (∀ xs : List Node, (Json.arr (Node.listToJson xs)).FaithfullyWritten ∧
        (Json.arr (Node.listToJson xs)).FoundWhenRead fun y =>
          ∃ items, y = .arr items ∧ Node.ListFoundIn xs items) ∧
      (∀ v : Value, v.toJson.FaithfullyWritten ∧ v.toJson.FoundWhenRead v.FoundIn) ∧
      (∀ b : Attributes, (Bag.toJson b).FaithfullyWritten ∧
        (Bag.toJson b).FoundWhenRead fun y => ∃ members, y = .obj members ∧ b.FoundIn members) ∧
      (∀ c : Comment, c.toJson.FaithfullyWritten ∧ c.toJson.FoundWhenRead c.FoundIn) ∧
      (∀ p : Position, p.toJson.FaithfullyWritten ∧ p.toJson.FoundWhenRead p.FoundIn) := by
  refine ⟨fun x => ?_, fun xs => ?_, fun v => ?_, fun b => ?_, fun c => ?_, fun p => ?_⟩
  · have hx := x.wellFormed_toJson.faithfullyWritten
    exact ⟨hx, hx.foundWhenRead fun _ h => Node.foundIn_write h x⟩
  · have hxs := (SubNode.nodes xs).wellFormed_toJson.faithfullyWritten
    exact ⟨hxs, hxs.foundWhenRead fun _ h => ⟨_, h.arr _, Node.listFoundIn_write h xs⟩⟩
  · have hv := v.wellFormed_toJson.faithfullyWritten
    exact ⟨hv, hv.foundWhenRead fun _ h => Value.foundIn_write h v⟩
  · have hb := (Bag.wellFormed_toJson b).faithfullyWritten
    exact ⟨hb, hb.foundWhenRead fun _ h => Bag.foundIn_write h b⟩
  · have hc := c.wellFormed_toJson.faithfullyWritten
    exact ⟨hc, hc.foundWhenRead fun _ h => Comment.foundIn_write h c⟩
  · have hp := p.wellFormed_toJson.faithfullyWritten
    exact ⟨hp, hp.foundWhenRead fun _ h => Position.foundIn_write h p⟩

end PhpTree
