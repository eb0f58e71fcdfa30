import PhpTree.Bag.Lemmas
import PhpTree.Node.TreeNode

/-!
# Laws of nodes

The attributes of a node can be replaced and read back, and replacing them changes nothing else of
what the contract shows. `Node` and its variants obey these laws.
-/

namespace PhpTree

/-- A node whose attributes are a part of their own. -/
class LawfulTreeNode (α : Type) [TreeNode α] : Prop where
  attributes_withAttributes (x : α) (b : Attributes) :
    TreeNode.attributes (TreeNode.withAttributes x b) = b
  withAttributes_attributes (x : α) : TreeNode.withAttributes x (TreeNode.attributes x) = x
  withAttributes_withAttributes (x : α) (b c : Attributes) :
    TreeNode.withAttributes (TreeNode.withAttributes x b) c = TreeNode.withAttributes x c
  nodeType_withAttributes (x : α) (b : Attributes) :
    TreeNode.nodeType (TreeNode.withAttributes x b) = TreeNode.nodeType x
  subNodeNames_withAttributes (x : α) (b : Attributes) :
    TreeNode.subNodeNames (TreeNode.withAttributes x b) = TreeNode.subNodeNames x
  subNode?_withAttributes (x : α) (b : Attributes) (field : String) :
    TreeNode.subNode? (TreeNode.withAttributes x b) field = TreeNode.subNode? x field

instance : LawfulTreeNode Name where
  attributes_withAttributes _ _ := rfl
  withAttributes_attributes x := by cases x; rfl
  withAttributes_withAttributes _ _ _ := rfl
  nodeType_withAttributes _ _ := rfl
  subNodeNames_withAttributes _ _ := rfl
  subNode?_withAttributes _ _ _ := rfl

instance : LawfulTreeNode Interpolated where
  attributes_withAttributes _ _ := rfl
  withAttributes_attributes x := by cases x; rfl
  withAttributes_withAttributes _ _ _ := rfl
  nodeType_withAttributes _ _ := rfl
  subNodeNames_withAttributes _ _ := rfl
  subNode?_withAttributes _ _ _ := rfl

instance : LawfulTreeNode StringPart where
  attributes_withAttributes _ _ := rfl
  withAttributes_attributes _ := rfl
  withAttributes_withAttributes _ _ _ := rfl
  nodeType_withAttributes _ _ := rfl
  subNodeNames_withAttributes _ _ := rfl
  subNode?_withAttributes _ _ _ := rfl

instance : LawfulTreeNode InlineHtml where
  attributes_withAttributes _ _ := rfl
  withAttributes_attributes _ := rfl
  withAttributes_withAttributes _ _ _ := rfl
  nodeType_withAttributes _ _ := rfl
  subNodeNames_withAttributes _ _ := rfl
  subNode?_withAttributes _ _ _ := rfl

instance : LawfulTreeNode Node where
  attributes_withAttributes x _ := by cases x <;> rfl
  withAttributes_attributes x := by rcases x with ⟨⟨⟩⟩ | ⟨⟨⟩⟩ | _ | _ <;> rfl
  withAttributes_withAttributes x _ _ := by cases x <;> rfl
  nodeType_withAttributes x _ := by cases x <;> rfl
  subNodeNames_withAttributes x _ := by cases x <;> rfl
  subNode?_withAttributes x _ _ := by cases x <;> rfl

namespace TreeNode

variable {α : Type} [TreeNode α] [LawfulTreeNode α]

theorem attributes_mapAttributes (f : Attributes → Attributes) (x : α) :
    attributes (mapAttributes f x) = f (attributes x) :=
  LawfulTreeNode.attributes_withAttributes x _

theorem mapAttributes_mapAttributes (f g : Attributes → Attributes) (x : α) :
    mapAttributes g (mapAttributes f x) = mapAttributes (g ∘ f) x := by
  rw [mapAttributes, attributes_mapAttributes]
  exact LawfulTreeNode.withAttributes_withAttributes x _ _

theorem attribute?_setAttribute (x : α) (key k : String) (value : Value) :
    attribute? (setAttribute x k value) key = if key = k then some value else attribute? x key := by
  rw [attribute?, setAttribute, attributes_mapAttributes, Bag.get?_insert]
  rfl

/-- Of two values that are set under one key the second one stays. -/
theorem setAttribute_setAttribute (x : α) (key : String) (value value' : Value) :
    setAttribute (setAttribute x key value) key value' = setAttribute x key value' := by
  rw [setAttribute, setAttribute, mapAttributes_mapAttributes, setAttribute]
  congr 1
  funext b
  exact b.insert_insert key value value'

end TreeNode

end PhpTree
