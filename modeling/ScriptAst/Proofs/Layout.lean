import Mathlib.Data.List.Nodup
import Mathlib.Logic.Relation
import ScriptAst.ParseTree.Interchange
import ScriptAst.Proofs.Interchange
import ScriptAst.Proofs.Json.Legible

/-! # Layout of the interchange form

The objects that trees are written as are records.  A `Record` has a table of fields: the names that
it knows, what their values are read as, and which of them may be left out.  An object is read as a
record just if each field of it can be read (`Role.read?_object_keeps`,
`Role.read?_object_spoiled`), and a field looks only at the members of its own name.

So a change to the members of one object does not show in the tree if every field is read from the
changed members as from the members before, and by induction on the place of the object
(`Within`) it does not show from further outside either.  This is so for a change of order, for
members of unknown names and for members that have the value they may be left out with
(`Record.Relaid`).  A field that is repeated can not be read, and then nothing around it can
(`Record.Repeated`).
-/
namespace ScriptAst.Layout

/-! ## Records -/

/-- What a value is read as. -/
inductive Role where
  | tree (isRoot : Bool)
  | trees
  | pos
  | form (isRoot : Bool)
  | text
  | word

namespace Role

/-- What is read in a role. -/
abbrev Result : Role → Type
  | tree _ => ParseTree
  | trees => List ParseTree
  | pos => SourcePos
  | form _ => ParseTree.Form
  | text => String
  | word => UInt32

/-- Reads a value in a role. -/
def read? : (role : Role) → Json → Option role.Result
  | tree isRoot => ParseTree.ofJson? isRoot
  | trees => ParseTree.children?
  | pos => SourcePos.ofJson?
  | form isRoot => ParseTree.form? isRoot
  | text => Json.string?
  | word => Json.word?

end Role

/-- A field of a record.  If it may be left out, it has a value for this case. -/
structure Field where
  name : String
  role : Role
  default? : Option Json

/-- What the members say of the field. -/
def Field.read? (field : Field) (members : List (String × Json)) : Option field.role.Result :=
  match Json.named field.name members with
  | [] => field.default?.bind field.role.read?
  | [value] => field.role.read? value
  | _ => none

/-- The field that tells the records of trees apart. -/
def kindField (isRoot : Bool) : Field := ⟨"kind", .form isRoot, none⟩

/-- The records that are written as objects. -/
inductive Record where
  | token (isRoot : Bool)
  | node (isRoot : Bool)
  | pos

namespace Record

/-- The fields of a record. -/
def fields : Record → List Field
  | token isRoot =>
    [kindField isRoot, ⟨"symbol", .text, none⟩, ⟨"text", .text, none⟩, ⟨"pos", .pos, none⟩]
  | node isRoot =>
    [kindField isRoot, ⟨"symbol", .text, none⟩, ⟨"children", .trees, some (.array [])⟩]
  | pos =>
    [⟨"index", .word, some (.natural 0)⟩, ⟨"line", .word, none⟩, ⟨"column", .word, none⟩]

/-- The record of a tree of the given form. -/
def ofForm (isRoot : Bool) : ParseTree.Form → Record
  | .terminal => token isRoot
  | .nonterminal => node isRoot

/-- The names that a record knows. -/
def known (record : Record) : List String := record.fields.map Field.name

end Record

/-- The record that an object is read as in a role: for trees the members decide. -/
def Role.record? (members : List (String × Json)) : Role → Option Record
  | tree isRoot => ((kindField isRoot).read? members).map (Record.ofForm isRoot)
  | pos => some .pos
  | _ => none

/-! ## Changes -/

/-- Another layout of the members of a record: in another order, with a member that the record does
not know, or without one that may be left out. -/
inductive Record.Relaid (record : Record) :
    List (String × Json) → List (String × Json) → Prop
  | permuted {members members' : List (String × Json)} :
      members.Perm members' → Relaid record members members'
  | added {name : String} {value : Json} {members : List (String × Json)} :
      name ∉ record.known → value.Legible → Relaid record members ((name, value) :: members)
  | leftOut {field : Field} {value : Json} {members : List (String × Json)} :
      field ∈ record.fields → field.default? = some value →
      Relaid record ((field.name, value) :: members) members

/-- A member that the record knows is there once more, with any value and anywhere. -/
inductive Record.Repeated (record : Record) :
    List (String × Json) → List (String × Json) → Prop
  | intro {name : String} {value : Json} {members members' : List (String × Json)} :
      name ∈ record.known → name ∈ members.map Prod.fst → value.Legible →
      members'.Perm ((name, value) :: members) → Repeated record members members'

/-- The members of one object are changed, the object itself or one further inside. -/
inductive Within (change : Record → List (String × Json) → List (String × Json) → Prop) :
    Role → Json → Json → Prop
  | here {role : Role} {record : Record} {members members' : List (String × Json)} :
      role.record? members = some record → change record members members' →
      Within change role (.object members) (.object members')
  | inner {role : Role} {record : Record} {field : Field} {value value' : Json}
      {before behind : List (String × Json)} :
      role.record? (before ++ (field.name, value) :: behind) = some record →
      field ∈ record.fields → Within change field.role value value' →
      Within change role (.object (before ++ (field.name, value) :: behind))
        (.object (before ++ (field.name, value') :: behind))
  | item {item item' : Json} {before behind : List Json} :
      Within change (.tree false) item item' →
      Within change .trees (.array (before ++ item :: behind)) (.array (before ++ item' :: behind))

/-! ## Fields -/

section Fields

variable {name : String} {value : Json} {members members' : List (String × Json)}

theorem named_cons_self (name : String) (value : Json) (members : List (String × Json)) :
    Json.named name ((name, value) :: members) = value :: Json.named name members := by
  simp [Json.named]

theorem named_cons_of_ne {other : String} (h : other ≠ name) (value : Json)
    (members : List (String × Json)) :
    Json.named name ((other, value) :: members) = Json.named name members := by
  simp [Json.named, h]

theorem named_ne_nil (h : name ∈ members.map Prod.fst) : Json.named name members ≠ [] := by
  obtain ⟨⟨key, value⟩, hmember, rfl⟩ := List.mem_map.mp h
  have hvalue : value ∈ Json.named key members := by
    refine List.mem_filterMap.mpr ⟨_, hmember, ?_⟩
    simp
  exact List.ne_nil_of_mem hvalue

namespace Field

variable (field : Field)

/-- A field may not be repeated. -/
theorem read?_eq_none (h : 1 < (Json.named field.name members).length) :
    field.read? members = none := by
  unfold read?
  split
  · next hnamed => exact absurd h (by simp [hnamed])
  · next hnamed => exact absurd h (by simp [hnamed])
  · rfl

/-- A field does not depend on the order of the members. -/
theorem read?_perm (h : members.Perm members') : field.read? members = field.read? members' := by
  have hnamed : (Json.named field.name members).Perm (Json.named field.name members') :=
    h.filterMap _
  rcases Nat.lt_or_ge 1 (Json.named field.name members).length with hlength | hlength
  · rw [field.read?_eq_none hlength, field.read?_eq_none (hnamed.length_eq ▸ hlength)]
  · have hsame : Json.named field.name members = Json.named field.name members' := by
      cases hvalues : Json.named field.name members with
      | nil => exact (List.nil_perm.mp (hvalues ▸ hnamed)).symm
      | cons value values =>
        rw [hvalues] at hlength hnamed
        obtain rfl : values = [] := List.eq_nil_of_length_eq_zero (by simpa using hlength)
        exact List.singleton_perm.mp hnamed
    rw [read?, read?, hsame]

/-- A field does not depend on members of other names. -/
theorem read?_cons_of_ne (h : name ≠ field.name) :
    field.read? ((name, value) :: members) = field.read? members := by
  rw [read?, read?, named_cons_of_ne h]

/-- A member of the name is the only one. -/
theorem read?_cons_self_eq_some_iff {result : field.role.Result} :
    field.read? ((field.name, value) :: members) = some result ↔
      Json.named field.name members = [] ∧ field.role.read? value = some result := by
  rw [read?, named_cons_self]
  cases Json.named field.name members with
  | nil => simp
  | cons => simp

/-- A field that may not be left out. -/
theorem read?_eq_bind_required (h : field.default? = none) (members : List (String × Json)) :
    field.read? members = (Json.required? field.name members).bind field.role.read? := by
  unfold read? Json.required?
  rw [h]
  split <;> simp_all

/-- A field that may be left out. -/
theorem read?_eq_bind_optional {default : Json} (h : field.default? = some default)
    (members : List (String × Json)) :
    field.read? members = (Json.optional? field.name default members).bind field.role.read? := by
  unfold read? Json.optional?
  rw [h]
  split <;> simp_all

/-- What is read of a field between other members, if the field is not repeated there. -/
theorem read?_middle_eq_some_iff {before behind : List (String × Json)}
    {result : field.role.Result} :
    field.read? (before ++ (field.name, value) :: behind) = some result ↔
      Json.named field.name (before ++ behind) = [] ∧ field.role.read? value = some result := by
  rw [field.read?_perm List.perm_middle, read?_cons_self_eq_some_iff]

theorem read?_middle_of_ne {before behind : List (String × Json)} (h : name ≠ field.name)
    (value' : Json) :
    field.read? (before ++ (name, value) :: behind) =
      field.read? (before ++ (name, value') :: behind) := by
  rw [field.read?_perm List.perm_middle, field.read?_perm List.perm_middle,
    field.read?_cons_of_ne h, field.read?_cons_of_ne h]

end Field

theorem Record.nodup_known (record : Record) : record.known.Nodup := by
  cases record with
  | token isRoot => exact (by decide : ["kind", "symbol", "text", "pos"].Nodup)
  | node isRoot => exact (by decide : ["kind", "symbol", "children"].Nodup)
  | pos => exact (by decide : ["index", "line", "column"].Nodup)

/-- The fields of a record have different names. -/
theorem Record.eq_of_mem_fields {record : Record} {field field' : Field}
    (h : field ∈ record.fields) (h' : field' ∈ record.fields) (hname : field.name = field'.name) :
    field = field' :=
  List.inj_on_of_nodup_map record.nodup_known h h' hname

end Fields

/-! ## Objects -/

section Objects

variable {isRoot : Bool} {members members' : List (String × Json)}

theorem childLists_eq (members : List (String × Json)) :
    ParseTree.childLists members =
      (Json.named "children" members).map ParseTree.children? := by
  induction members with
  | nil => rfl
  | cons member members ih =>
    obtain ⟨name, value⟩ := member
    rw [ParseTree.childLists, ih]
    by_cases h : name = "children"
    · subst h
      rw [if_pos rfl, named_cons_self, List.map_cons]
    · rw [if_neg h, named_cons_of_ne h]

/-- A position is read if all its fields are. -/
theorem pos_eq_some_iff {pos : SourcePos} :
    SourcePos.ofJson? (.object members) = some pos ↔
      ∃ index line column,
        Field.read? ⟨"index", .word, some (.natural 0)⟩ members = some index ∧
        Field.read? ⟨"line", .word, none⟩ members = some line ∧
        Field.read? ⟨"column", .word, none⟩ members = some column ∧
        SourcePos.mk index line column = pos := by
  rw [Field.read?_eq_bind_optional _ rfl, Field.read?_eq_bind_required _ rfl,
    Field.read?_eq_bind_required _ rfl]
  simp only [SourcePos.ofJson?, Option.bind_eq_bind, Option.bind_eq_some_iff]
  constructor
  · rintro ⟨a, ha, b, hb, c, hc, index, hindex, line, hline, column, hcolumn, hpos⟩
    exact ⟨index, line, column, ⟨a, ha, hindex⟩, ⟨b, hb, hline⟩, ⟨c, hc, hcolumn⟩,
      Option.some.inj hpos⟩
  · rintro ⟨index, line, column, ⟨a, ha, hindex⟩, ⟨b, hb, hline⟩, ⟨c, hc, hcolumn⟩, rfl⟩
    exact ⟨a, ha, b, hb, c, hc, index, hindex, line, hline, column, hcolumn, rfl⟩

/-- A token is read if all its fields are. -/
theorem token_eq_some_iff {tree : ParseTree} :
    ParseTree.tokenOfMembers? members = some tree ↔
      ∃ symbol text pos, Field.read? ⟨"symbol", .text, none⟩ members = some symbol ∧
        Field.read? ⟨"text", .text, none⟩ members = some text ∧
        Field.read? ⟨"pos", .pos, none⟩ members = some pos ∧
        ParseTree.token symbol text pos = tree := by
  rw [Field.read?_eq_bind_required _ rfl, Field.read?_eq_bind_required _ rfl,
    Field.read?_eq_bind_required _ rfl]
  simp only [ParseTree.tokenOfMembers?, Option.bind_eq_bind, Option.bind_eq_some_iff]
  constructor
  · rintro ⟨a, ha, b, hb, c, hc, symbol, hsymbol, text, htext, pos, hpos, htree⟩
    exact ⟨symbol, text, pos, ⟨a, ha, hsymbol⟩, ⟨b, hb, htext⟩, ⟨c, hc, hpos⟩,
      Option.some.inj htree⟩
  · rintro ⟨symbol, text, pos, ⟨a, ha, hsymbol⟩, ⟨b, hb, htext⟩, ⟨c, hc, hpos⟩, rfl⟩
    exact ⟨a, ha, b, hb, c, hc, symbol, hsymbol, text, htext, pos, hpos, rfl⟩

/-- A node is read if all its fields are. -/
theorem node_eq_some_iff {tree : ParseTree} :
    ParseTree.nodeOfMembers? members (ParseTree.childLists members) = some tree ↔
      ∃ symbol children, Field.read? ⟨"symbol", .text, none⟩ members = some symbol ∧
        Field.read? ⟨"children", .trees, some (.array [])⟩ members = some children ∧
        ParseTree.node symbol children = tree := by
  rw [Field.read?_eq_bind_required _ rfl, childLists_eq]
  unfold Field.read?
  simp only [ParseTree.nodeOfMembers?, Option.bind_eq_bind, Option.bind_eq_some_iff]
  rcases Json.named "children" members with _ | ⟨value, _ | ⟨further, values⟩⟩
  · constructor
    · rintro ⟨a, ha, htree⟩
      obtain ⟨symbol, hsymbol, htree⟩ := Option.bind_eq_some_iff.mp htree
      exact ⟨symbol, [], ⟨a, ha, hsymbol⟩, rfl, Option.some.inj htree⟩
    · rintro ⟨symbol, trees, ⟨a, ha, hsymbol⟩, htrees, rfl⟩
      cases htrees
      exact ⟨a, ha, Option.bind_eq_some_iff.mpr ⟨symbol, hsymbol, rfl⟩⟩
  · constructor
    · rintro ⟨a, ha, htree⟩
      obtain ⟨symbol, hsymbol, htree⟩ := Option.bind_eq_some_iff.mp htree
      obtain ⟨trees, htrees, htree⟩ := Option.bind_eq_some_iff.mp htree
      exact ⟨symbol, trees, ⟨a, ha, hsymbol⟩, htrees, Option.some.inj htree⟩
    · rintro ⟨symbol, trees, ⟨a, ha, hsymbol⟩, htrees, rfl⟩
      refine ⟨a, ha, Option.bind_eq_some_iff.mpr ⟨symbol, hsymbol, ?_⟩⟩
      exact Option.bind_eq_some_iff.mpr ⟨trees, htrees, rfl⟩
  · constructor
    · rintro ⟨a, ha, htree⟩
      cases htree
    · rintro ⟨symbol, trees, ⟨a, ha, hsymbol⟩, htrees, rfl⟩
      cases htrees

/-- The kind of an object decides what is read from its members. -/
theorem tree_eq_bind :
    ParseTree.ofJson? isRoot (.object members) =
      ((kindField isRoot).read? members).bind fun
        | .terminal => ParseTree.tokenOfMembers? members
        | .nonterminal =>
          ParseTree.nodeOfMembers? members (ParseTree.childLists members) := by
  rw [ParseTree.ofJson?, Field.read?_eq_bind_required _ rfl, Option.bind_assoc]
  refine congrArg (Option.bind _) (funext fun kind => ?_)
  refine congrArg (Option.bind _) (funext fun form => ?_)
  cases form <;> rfl

namespace Role

variable {role : Role} {record : Record}

theorem kindField_mem_fields (isRoot : Bool) (kind : ParseTree.Form) :
    kindField isRoot ∈ (Record.ofForm isRoot kind).fields := by
  cases kind <;> exact .head _

theorem record?_tree {kind : ParseTree.Form}
    (h : (kindField isRoot).read? members = some kind) :
    (tree isRoot).record? members = some (.ofForm isRoot kind) := by
  rw [record?, h]
  rfl

/-- **A change keeps what an object is read as** if it keeps what its fields are read as. -/
theorem read?_object_keeps (hrecord : role.record? members = some record)
    (h : ∀ field ∈ record.fields, ∀ result, field.read? members = some result →
      field.read? members' = some result)
    {result : role.Result} (hresult : role.read? (.object members) = some result) :
    role.read? (.object members') = some result := by
  cases role with
  | tree isRoot =>
    obtain ⟨kind, hkind, hresult⟩ := Option.bind_eq_some_iff.mp (tree_eq_bind.symm.trans hresult)
    rw [record?_tree hkind] at hrecord
    cases hrecord
    refine tree_eq_bind.trans (Option.bind_eq_some_iff.mpr ⟨kind, ?_, ?_⟩)
    · exact h _ (kindField_mem_fields isRoot kind) _ hkind
    · cases kind with
      | terminal =>
        obtain ⟨symbol, text, pos, hsymbol, htext, hpos, rfl⟩ := token_eq_some_iff.mp hresult
        exact token_eq_some_iff.mpr ⟨symbol, text, pos, h _ (.tail _ (.head _)) _ hsymbol,
          h _ (.tail _ (.tail _ (.head _))) _ htext,
          h _ (.tail _ (.tail _ (.tail _ (.head _)))) _ hpos, rfl⟩
      | nonterminal =>
        obtain ⟨symbol, children, hsymbol, hchildren, rfl⟩ := node_eq_some_iff.mp hresult
        exact node_eq_some_iff.mpr ⟨symbol, children, h _ (.tail _ (.head _)) _ hsymbol,
          h _ (.tail _ (.tail _ (.head _))) _ hchildren, rfl⟩
  | pos =>
    cases hrecord
    obtain ⟨index, line, column, hindex, hline, hcolumn, rfl⟩ := pos_eq_some_iff.mp hresult
    exact pos_eq_some_iff.mpr ⟨index, line, column, h _ (.head _) _ hindex,
      h _ (.tail _ (.head _)) _ hline, h _ (.tail _ (.tail _ (.head _))) _ hcolumn, rfl⟩
  | trees | form | text | word => exact nomatch hrecord

/-- An object is read only if all fields of its record are. -/
theorem exists_read?_field (hrecord : role.record? members = some record) {result : role.Result}
    (hresult : role.read? (.object members) = some result) {field : Field}
    (hfield : field ∈ record.fields) : ∃ value, field.read? members = some value := by
  cases role with
  | tree isRoot =>
    obtain ⟨kind, hkind, hresult⟩ := Option.bind_eq_some_iff.mp (tree_eq_bind.symm.trans hresult)
    rw [record?_tree hkind] at hrecord
    cases hrecord
    cases kind with
    | terminal =>
      obtain ⟨symbol, text, pos, hsymbol, htext, hpos, rfl⟩ := token_eq_some_iff.mp hresult
      simp only [Record.ofForm, Record.fields, List.mem_cons, List.not_mem_nil, or_false] at hfield
      rcases hfield with rfl | rfl | rfl | rfl
      · exact ⟨_, hkind⟩
      · exact ⟨_, hsymbol⟩
      · exact ⟨_, htext⟩
      · exact ⟨_, hpos⟩
    | nonterminal =>
      obtain ⟨symbol, children, hsymbol, hchildren, rfl⟩ := node_eq_some_iff.mp hresult
      simp only [Record.ofForm, Record.fields, List.mem_cons, List.not_mem_nil, or_false] at hfield
      rcases hfield with rfl | rfl | rfl
      · exact ⟨_, hkind⟩
      · exact ⟨_, hsymbol⟩
      · exact ⟨_, hchildren⟩
  | pos =>
    cases hrecord
    obtain ⟨index, line, column, hindex, hline, hcolumn, rfl⟩ := pos_eq_some_iff.mp hresult
    simp only [Record.fields, List.mem_cons, List.not_mem_nil, or_false] at hfield
    rcases hfield with rfl | rfl | rfl
    · exact ⟨_, hindex⟩
    · exact ⟨_, hline⟩
    · exact ⟨_, hcolumn⟩
  | trees | form | text | word => exact nomatch hrecord

/-- **A change that spoils a field spoils the object**, if it leaves the other fields alone. -/
theorem read?_object_spoiled (hrecord : role.record? members = some record) {field : Field}
    (hfield : field ∈ record.fields) (hspoiled : field.read? members' = none)
    (h : ∀ other ∈ record.fields, other.name ≠ field.name →
      other.read? members' = other.read? members) :
    role.read? (.object members') = none := by
  refine Option.eq_none_iff_forall_ne_some.mpr fun result hresult => ?_
  have hsame : role.record? members' = some record := by
    cases role with
    | tree isRoot =>
      obtain ⟨kind, hkind, rfl⟩ := Option.map_eq_some_iff.mp hrecord
      obtain ⟨kind', hkind', -⟩ :=
        Option.bind_eq_some_iff.mp (tree_eq_bind.symm.trans hresult)
      have hmem := kindField_mem_fields isRoot kind
      by_cases hname : (kindField isRoot).name = field.name
      · obtain rfl := Record.eq_of_mem_fields hmem hfield hname
        exact nomatch hspoiled.symm.trans hkind'
      · exact record?_tree ((h _ hmem hname).trans hkind)
    | pos => exact hrecord
    | trees | form | text | word => exact nomatch hrecord
  obtain ⟨value, hvalue⟩ := exists_read?_field hsame hresult hfield
  rw [hspoiled] at hvalue
  exact nomatch hvalue

end Role

end Objects

/-! ## Lists -/

theorem list?_cons_eq_some_iff {item : Json} {items : List Json} {trees : List ParseTree} :
    ParseTree.list? (item :: items) = some trees ↔
      ∃ first rest, ParseTree.ofJson? false item = some first ∧
        ParseTree.list? items = some rest ∧ first :: rest = trees := by
  rw [ParseTree.list?]
  constructor
  · intro h
    obtain ⟨first, hfirst, h⟩ := Option.bind_eq_some_iff.mp h
    obtain ⟨rest, hrest, h⟩ := Option.bind_eq_some_iff.mp h
    exact ⟨first, rest, hfirst, hrest, Option.some.inj h⟩
  · rintro ⟨first, rest, hfirst, hrest, rfl⟩
    refine Option.bind_eq_some_iff.mpr ⟨first, hfirst, ?_⟩
    exact Option.bind_eq_some_iff.mpr ⟨rest, hrest, rfl⟩

/-- A list is read if the item at a place is, and the items before and behind it. -/
theorem list?_middle_eq_some_iff {before behind : List Json} {item : Json}
    {trees : List ParseTree} :
    ParseTree.list? (before ++ item :: behind) = some trees ↔
      ∃ first tree rest, ParseTree.list? before = some first ∧
        ParseTree.ofJson? false item = some tree ∧ ParseTree.list? behind = some rest ∧
        first ++ tree :: rest = trees := by
  induction before generalizing trees with
  | nil =>
    rw [List.nil_append, list?_cons_eq_some_iff]
    constructor
    · rintro ⟨tree, rest, htree, hrest, rfl⟩
      exact ⟨[], tree, rest, rfl, htree, hrest, rfl⟩
    · rintro ⟨first, tree, rest, hfirst, htree, hrest, rfl⟩
      cases hfirst
      exact ⟨tree, rest, htree, hrest, rfl⟩
  | cons head before ih =>
    rw [List.cons_append, list?_cons_eq_some_iff]
    constructor
    · rintro ⟨t, trees, ht, htrees, rfl⟩
      obtain ⟨first, tree, rest, hfirst, htree, hrest, rfl⟩ := ih.mp htrees
      exact ⟨t :: first, tree, rest, list?_cons_eq_some_iff.mpr ⟨t, first, ht, hfirst, rfl⟩, htree,
        hrest, rfl⟩
    · rintro ⟨_, tree, rest, hbefore, htree, hrest, rfl⟩
      obtain ⟨t, first, ht, hfirst, rfl⟩ := list?_cons_eq_some_iff.mp hbefore
      exact ⟨t, _, ht, ih.mpr ⟨first, tree, rest, hfirst, htree, hrest, rfl⟩, rfl⟩

/-! ## Changes to one object -/

section Changes

variable {record : Record} {members members' : List (String × Json)}

/-- Another layout keeps what the fields are read as. -/
theorem Record.Relaid.keeps (h : record.Relaid members members') {field : Field}
    (hfield : field ∈ record.fields) {result : field.role.Result}
    (hresult : field.read? members = some result) : field.read? members' = some result := by
  cases h with
  | permuted hperm => rwa [← field.read?_perm hperm]
  | @added name value members hname _ =>
    have hne : name ≠ field.name := by
      rintro rfl
      exact hname (List.mem_map_of_mem hfield)
    rwa [field.read?_cons_of_ne hne]
  | @leftOut omitted value members homitted hdefault =>
    by_cases hname : omitted.name = field.name
    · obtain rfl := eq_of_mem_fields homitted hfield hname
      obtain ⟨hnone, hvalue⟩ := omitted.read?_cons_self_eq_some_iff.mp hresult
      rw [Field.read?, hnone, hdefault]
      exact hvalue
    · rwa [field.read?_cons_of_ne hname] at hresult

theorem Record.Relaid.legible (h : record.Relaid members members')
    (hmembers : ∀ member ∈ members, member.2.Legible) : ∀ member ∈ members', member.2.Legible := by
  cases h with
  | permuted hperm => exact fun member hmember => hmembers member (hperm.mem_iff.mpr hmember)
  | added _ hvalue => exact List.forall_mem_cons.mpr ⟨hvalue, hmembers⟩
  | leftOut => exact (List.forall_mem_cons.mp hmembers).2

theorem Record.Repeated.legible (h : record.Repeated members members')
    (hmembers : ∀ member ∈ members, member.2.Legible) : ∀ member ∈ members', member.2.Legible := by
  cases h with
  | @intro name value _ _ _ _ hvalue hperm =>
    have hall : ∀ member ∈ (name, value) :: members, member.2.Legible :=
      List.forall_mem_cons.mpr ⟨hvalue, hmembers⟩
    exact fun member hmember => hall member (hperm.mem_iff.mp hmember)

/-- An object with a repeated field is not read. -/
theorem Record.Repeated.spoils (h : record.Repeated members members') {role : Role}
    (hrecord : role.record? members = some record) : role.read? (.object members') = none := by
  cases h with
  | @intro name value _ _ hknown hmem _ hperm =>
    obtain ⟨field, hfield, rfl⟩ := List.mem_map.mp hknown
    refine Role.read?_object_spoiled hrecord hfield ?_ fun other _ hother => ?_
    · rw [field.read?_perm hperm]
      refine field.read?_eq_none ?_
      rw [named_cons_self, List.length_cons]
      exact Nat.succ_lt_succ (List.length_pos_iff.mpr (named_ne_nil hmem))
    · rw [other.read?_perm hperm, other.read?_cons_of_ne hother.symm]

end Changes

/-! ## Changes anywhere -/

namespace Within

variable {role : Role} {value value' : Json}

/-- **Another layout anywhere in a value** keeps what it is read as. -/
theorem keeps (h : Within Record.Relaid role value value') {result : role.Result}
    (hresult : role.read? value = some result) : role.read? value' = some result := by
  induction h with
  | here hrecord hchange =>
    exact Role.read?_object_keeps hrecord (fun _ hfield _ => hchange.keeps hfield) hresult
  | @inner role record field value value' before behind hrecord hfield _ ih =>
    refine Role.read?_object_keeps hrecord (fun other hother found hfound => ?_) hresult
    by_cases hname : field.name = other.name
    · obtain rfl := Record.eq_of_mem_fields hfield hother hname
      obtain ⟨hnone, hvalue⟩ := field.read?_middle_eq_some_iff.mp hfound
      exact field.read?_middle_eq_some_iff.mpr ⟨hnone, ih hvalue⟩
    · rwa [other.read?_middle_of_ne hname value'] at hfound
  | item _ ih =>
    obtain ⟨first, tree, rest, hfirst, htree, hrest, rfl⟩ := list?_middle_eq_some_iff.mp hresult
    exact list?_middle_eq_some_iff.mpr ⟨first, tree, rest, hfirst, ih htree, hrest, rfl⟩

/-- **A repeated field anywhere in a value** keeps it from being read. -/
theorem spoils (h : Within Record.Repeated role value value') : role.read? value' = none := by
  induction h with
  | here hrecord hchange => exact hchange.spoils hrecord
  | @inner role record field value value' before behind hrecord hfield _ ih =>
    refine Role.read?_object_spoiled hrecord hfield ?_ fun other _ hother => ?_
    · refine Option.eq_none_iff_forall_ne_some.mpr fun found hfound => ?_
      obtain ⟨-, hvalue⟩ := field.read?_middle_eq_some_iff.mp hfound
      exact nomatch ih.symm.trans hvalue
    · exact (other.read?_middle_of_ne hother.symm value').symm
  | item _ ih =>
    refine Option.eq_none_iff_forall_ne_some.mpr fun trees htrees => ?_
    obtain ⟨_, tree, _, -, htree, -⟩ := list?_middle_eq_some_iff.mp htrees
    exact nomatch ih.symm.trans htree

/-- A change that keeps members legible keeps the value around them legible. -/
theorem legible {change : Record → List (String × Json) → List (String × Json) → Prop}
    (hchange : ∀ record members members', change record members members' →
      (∀ member ∈ members, member.2.Legible) → ∀ member ∈ members', member.2.Legible)
    (h : Within change role value value') (hvalue : value.Legible) : value'.Legible := by
  induction h with
  | here _ hmembers =>
    cases hvalue with
    | object hlegible => exact .object (hchange _ _ _ hmembers hlegible)
  | inner _ _ _ ih =>
    cases hvalue with
    | object hlegible =>
      obtain ⟨hbefore, hbehind⟩ := List.forall_mem_append.mp hlegible
      obtain ⟨hvalue, hbehind⟩ := List.forall_mem_cons.mp hbehind
      exact .object (List.forall_mem_append.mpr
        ⟨hbefore, List.forall_mem_cons.mpr ⟨ih hvalue, hbehind⟩⟩)
  | item _ ih =>
    cases hvalue with
    | array hlegible =>
      obtain ⟨hbefore, hbehind⟩ := List.forall_mem_append.mp hlegible
      obtain ⟨hitem, hbehind⟩ := List.forall_mem_cons.mp hbehind
      exact .array (List.forall_mem_append.mpr
        ⟨hbefore, List.forall_mem_cons.mpr ⟨ih hitem, hbehind⟩⟩)

end Within

/-- Changes of the layout one after the other. -/
abbrev Rearranged : Json → Json → Prop :=
  Relation.ReflTransGen (Within Record.Relaid (.tree true))

theorem Rearranged.keeps {value value' : Json} (h : Rearranged value value') {tree : ParseTree}
    (htree : ParseTree.ofJson? true value = some tree) :
    ParseTree.ofJson? true value' = some tree := by
  induction h with
  | refl => exact htree
  | tail _ hlast ih => exact hlast.keeps ih

theorem Rearranged.legible {value value' : Json} (h : Rearranged value value')
    (hvalue : value.Legible) : value'.Legible := by
  induction h with
  | refl => exact hvalue
  | tail _ hlast ih => exact hlast.legible (fun _ _ _ => Record.Relaid.legible) ih

/-- **The layout of objects is ignored, and no field may be repeated.**  From the value of a text
that a tree is read from, the order of members, members of unknown names and members with the value
they may be left out with can be changed in any object: the value still has a text, and every text
of it is read as the same tree.  If a known member is there once more in any object, the value has a
text as well, and no tree is read from any. -/
theorem tree_ignores_layout {text : String} {value : Json} {tree : ParseTree}
    (hvalue : Json.read? text = some value) (htree : ParseTree.ofJsonText? text = some tree) :
    (∀ value', Rearranged value value' →
      Json.read? value'.write = some value' ∧
      ∀ text', Json.read? text' = some value' → ParseTree.ofJsonText? text' = some tree) ∧
    ∀ value', Within Record.Repeated (.tree true) value value' →
      Json.read? value'.write = some value' ∧
      ∀ text', Json.read? text' = some value' → ParseTree.ofJsonText? text' = none := by
  have hlegible := Json.legible_of_read? hvalue
  have hofJson {text : String} {value : Json} (h : Json.read? text = some value) :
      ParseTree.ofJsonText? text = ParseTree.ofJson? true value := by
    rw [ParseTree.ofJsonText?, h, Option.bind_some]
  rw [hofJson hvalue] at htree
  constructor
  · intro value' h
    refine ⟨(h.legible hlegible).read?_write, fun text' htext' => ?_⟩
    rw [hofJson htext']
    exact h.keeps htree
  · intro value' h
    have hlegible' := h.legible (fun _ _ _ => Record.Repeated.legible) hlegible
    refine ⟨hlegible'.read?_write, fun text' htext' => ?_⟩
    rw [hofJson htext']
    exact h.spoils

/-- A position in JSON, its index left out. -/
def posSample : List (String × Json) := [("line", .natural 1), ("column", .natural 2)]

/-- A token in JSON at the position that is given. -/
def tokenSample (pos : Json) : List (String × Json) :=
  [("kind", .string "terminal"), ("symbol", .string ";"), ("text", .string ";"), ("pos", pos)]

/-- A block in JSON with the token as its child. -/
def blockSample (token : Json) : List (String × Json) :=
  [("kind", .string "nonterminal"), ("symbol", .string "block"), ("children", .array [token])]

theorem record?_tokenSample (pos : Json) :
    (Role.tree false).record? (tokenSample pos) = some (.token false) := by
  cbv

theorem record?_blockSample (token : Json) :
    (Role.tree true).record? (blockSample token) = some (.node true) := by
  cbv

def treeSample : ParseTree := .node "block" [.token ";" ";" ⟨0, 1, 2⟩]

/-- The index is left out, a member that only tokens know is added, and all members are turned
around. -/
theorem rearranged_toJson :
    Rearranged treeSample.toJson
      (.object (("text", .null) ::
        blockSample (.object (tokenSample (.object posSample)))).reverse) := by
  have hpos : Within Record.Relaid .pos (.object (("index", .natural 0) :: posSample))
      (.object posSample) :=
    .here rfl (@Record.Relaid.leftOut .pos ⟨"index", .word, some (.natural 0)⟩ _ _ (.head _) rfl)
  have htoken : Within Record.Relaid (.tree false)
      (.object (tokenSample (.object (("index", .natural 0) :: posSample))))
      (.object (tokenSample (.object posSample))) :=
    @Within.inner _ _ (.token false) ⟨"pos", .pos, none⟩ _ _
      [("kind", .string "terminal"), ("symbol", .string ";"), ("text", .string ";")] []
      (record?_tokenSample _) (.tail _ (.tail _ (.tail _ (.head _)))) hpos
  have hblock : Within Record.Relaid (.tree true) treeSample.toJson
      (.object (blockSample (.object (tokenSample (.object posSample))))) :=
    @Within.inner _ _ (.node true) ⟨"children", .trees, some (.array [])⟩ _ _
      [("kind", .string "nonterminal"), ("symbol", .string "block")] []
      (record?_blockSample _) (.tail _ (.tail _ (.head _))) (@Within.item _ _ _ [] [] htoken)
  have hadded : Within Record.Relaid (.tree true)
      (.object (blockSample (.object (tokenSample (.object posSample)))))
      (.object (("text", .null) :: blockSample (.object (tokenSample (.object posSample))))) :=
    .here (record?_blockSample _) (.added (by decide) .null)
  have hrecord : (Role.tree true).record?
      (("text", .null) :: blockSample (.object (tokenSample (.object posSample)))) =
      some (.node true) := by
    cbv
  exact .tail (.tail (.single hblock) hadded) (.here hrecord (.permuted (List.reverse_perm _).symm))

theorem repeated_toJson :
    Within Record.Repeated (.tree true) treeSample.toJson
      (.object (("kind", .string "terminal") ::
        blockSample (.object (tokenSample (.object (("index", .natural 0) :: posSample)))))) :=
  .here (record?_blockSample _) (.intro (.head _) (.head _) (.string _) (.refl _))

/-- The block is read with all changes, and not with a second kind. -/
theorem tree_ignores_layout_block :
    ParseTree.ofJsonText? ("\x7b\"children\":[\x7b\"kind\":\"terminal\",\"symbol\":\";\"," ++
      "\"text\":\";\",\"pos\":\x7b\"line\":1,\"column\":2\x7d\x7d]," ++
      "\"symbol\":\"block\",\"kind\":\"nonterminal\",\"text\":null\x7d") = some treeSample ∧
    ParseTree.ofJsonText? ("\x7b\"kind\":\"terminal\",\"kind\":\"nonterminal\"," ++
      "\"symbol\":\"block\",\"children\":[\x7b\"kind\":\"terminal\",\"symbol\":\";\"," ++
      "\"text\":\";\",\"pos\":\x7b\"index\":0,\"line\":1,\"column\":2\x7d\x7d]\x7d") = none := by
  have hvalue : Json.read? treeSample.toJson.write = some treeSample.toJson :=
    Json.read?_write treeSample.toJson_plain
  have htree : ParseTree.ofJsonText? treeSample.toJson.write = some treeSample := by
    rw [ParseTree.ofJsonText?, hvalue, Option.bind_some, ParseTree.ofJson?_toJson]
  obtain ⟨hrearranged, hrepeated⟩ := tree_ignores_layout hvalue htree
  obtain ⟨hread, hsame⟩ := hrearranged _ rearranged_toJson
  obtain ⟨hread', hnone⟩ := hrepeated _ repeated_toJson
  refine ⟨Eq.trans (congrArg _ ?_) (hsame _ hread), Eq.trans (congrArg _ ?_) (hnone _ hread')⟩
  · cbv
  · cbv

end ScriptAst.Layout
