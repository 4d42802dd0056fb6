import ScriptAst.ParseTree.Interchange
import ScriptAst.Proofs.Json.RoundTrip

/-! # The interchange form keeps every tree

A tree is written as an object of plain values, so the text is read back as this object
(`Json.read?_write`); and the object is understood as the tree it was made of (`ofJson?_toJson`),
whether it stands at the root or among the children of a node.
-/
namespace ScriptAst

theorem Json.word?_toNat (n : UInt32) : word? (.natural n.toNat) = some n := by
  have hlt : n.toNat < UInt32.size := n.toNat_lt
  simp [word?, hlt]

namespace SourcePos

theorem toJson_plain (pos : SourcePos) : pos.toJson.Plain := by
  have hword (n : UInt32) : (Json.natural n.toNat).Plain :=
    .natural (Nat.lt_trans n.toNat_lt (by decide))
  refine .object fun member hmember => ?_
  simp only [List.mem_cons, List.not_mem_nil, or_false] at hmember
  rcases hmember with rfl | rfl | rfl <;> exact hword _

@[simp] theorem ofJson?_toJson (pos : SourcePos) : ofJson? pos.toJson = some pos := by
  simp [toJson, ofJson?, Json.optional?, Json.required?, Json.named, Json.word?_toNat]

end SourcePos

namespace ParseTree

/-- What is written for a tree has no numbers but those of its positions. -/
theorem toJson_plain (tree : ParseTree) : tree.toJson.Plain := by
  induction tree using induction with
  | token symbol text pos =>
    refine .object fun member hmember => ?_
    simp only [List.mem_cons, List.not_mem_nil, or_false] at hmember
    rcases hmember with rfl | rfl | rfl | rfl
    · exact .string _
    · exact .string _
    · exact .string _
    · exact pos.toJson_plain
  | node symbol children ih =>
    have hchildren : (Json.array (listToJson children)).Plain := by
      refine .array fun item hitem => ?_
      rw [listToJson_eq] at hitem
      obtain ⟨child, hchild, rfl⟩ := List.mem_map.mp hitem
      exact ih child hchild
    refine .object fun member hmember => ?_
    simp only [List.mem_cons, List.not_mem_nil, or_false] at hmember
    rcases hmember with rfl | rfl | rfl
    · exact .string _
    · exact .string _
    · exact hchildren

theorem list?_map {trees : List ParseTree}
    (h : ∀ tree ∈ trees, ofJson? false tree.toJson = some tree) :
    list? (trees.map toJson) = some trees := by
  induction trees with
  | nil => rfl
  | cons tree trees ih =>
    obtain ⟨htree, htrees⟩ := List.forall_mem_cons.mp h
    rw [List.map_cons, list?, htree, ih htrees]
    rfl

/-- What is written for a tree is understood as the tree. -/
theorem ofJson?_toJson (tree : ParseTree) (isRoot : Bool) :
    ofJson? isRoot tree.toJson = some tree := by
  induction tree using induction generalizing isRoot with
  | token symbol text pos =>
    simp [toJson, ofJson?, form?, tokenOfMembers?, Json.required?, Json.named, Json.string?]
  | node symbol children ih =>
    have hchildren : list? (listToJson children) = some children := by
      rw [listToJson_eq]
      exact list?_map fun child hchild => ih child hchild false
    simp [toJson, ofJson?, form?, nodeOfMembers?, childLists, children?, hchildren,
      Json.required?, Json.named, Json.string?]

/-- **Writing a tree and reading it back gives the tree**, whatever its symbols, texts, positions
and size. -/
theorem ofJsonText?_toJsonText (tree : ParseTree) : ofJsonText? tree.toJsonText = some tree := by
  rw [ofJsonText?, toJsonText, Json.read?_write tree.toJson_plain, Option.bind_some]
  exact tree.ofJson?_toJson true

end ParseTree
end ScriptAst
