import Kiln.Container.Declare
import Kiln.Proofs.Template.Reading
import Kiln.Proofs.Template.Substitution
/-!
# The trees of the containers

What the templates of this library are read as, and what their instances are. The tree of a
wrapper (`Blueprint.wrapperTree`) and that of an array's operations
(`Blueprint.operationsTree`) are written once, for any way of naming things: read off the
template they name holes, in an instance they name what fills those.
-/

namespace Kiln

namespace Blueprint

open Template

/-! ## Writing trees -/

/-- A symbol. -/
def word (name : String) : Tree := .leaf (.sym name) default

/-- A number. -/
def number (n : Int64) : Tree := .leaf (.int n) default

/-- A list. -/
def list (items : List Tree) : Tree := .node items default

/-! ## Wrappers -/

section Wrapper

variable (self : Tree) (own : String → Tree) (payload : Tree)

/-- Takes a block and puts the payload there, with no owner but the first. -/
def newBody : List Tree :=
  [list [word "let", word "block",
      list [word "cast", list [word "ptr", own "_block"],
        list [word "malloc", list [word "sizeof", own "_block"]]]],
    list [word "store", list [word "field", word "block", word "count"], number 0],
    list [word "store", list [word "field", word "block", word "payload"], word "value"],
    list [word "make", self, word "block"]]

/-- The block behind a handle. -/
def blockOf : Tree := list [word ".", word "rc", word "block"]

/-- The number of owners behind the first, of a handle. -/
def countOf : Tree := list [word "field", blockOf, word "count"]

/-- Where the payload lies. -/
def derefBody : List Tree := [list [word "field", blockOf, word "payload"]]

/-- One owner more. -/
def duplicateBody : List Tree :=
  [list [word "let", word "count", countOf],
    list [word "store", word "count",
      list [word "+", list [word "load", word "count"], number 1]],
    list [word "make", self, blockOf]]

/-- One owner less; the last gives the block back. -/
def releaseBody : List Tree :=
  [list [word "let", word "block", blockOf],
    list [word "let", word "remaining",
      list [word "-", list [word "load", list [word "field", word "block", word "count"]],
        number 1]],
    list [word "if", list [word "<", word "remaining", number 0],
      list [word "free", word "block"],
      list [word "store", list [word "field", word "block", word "count"], word "remaining"]]]

/-- The number of owners. -/
def countBody : List Tree := [list [word "+", list [word "load", countOf], number 1]]

/-- A function with one parameter. -/
def unary (name : Tree) (param : String) (type result : Tree) (body : List Tree) : Tree :=
  list ([word "fun", name, list [list [word param, type]], result] ++ body)

/-- The definitions of a wrapper, behind what its payload needs. -/
def wrapperDefinitions : List Tree :=
  [list [word "struct", own "_block", list [word "count", word "i64"],
      list [word "payload", payload]],
    list [word "struct", self, list [word "block", list [word "ptr", own "_block"]]],
    unary (own "_new") "value" payload self (newBody self own),
    unary (own "_deref") "rc" self (list [word "ptr", payload]) derefBody,
    unary (own "_duplicate") "rc" self self (duplicateBody self),
    unary (own "_release") "rc" self (word "unit") releaseBody,
    unary (own "_count") "rc" self (word "i64") countBody]

/-- The unit of a wrapper. -/
def wrapperTree (inner : Tree) : Tree :=
  list (word "do" :: inner :: wrapperDefinitions self own payload)

end Wrapper

/-! ## Arrays -/

section Array

variable (self : Tree) (own : String → Tree) (elem : Tree)

/-- What an array holds behind its owners: how many elements there are, and the first of them. -/
def headerTree : Tree :=
  list [word "struct", own "_header", list [word "length", word "u64"], list [word "first", elem]]

/-- Where the elements of a block start. -/
def firstOf (block : Tree) : Tree :=
  list [word "field", list [word "field", block, word "payload"], word "first"]

/-- Measures how far the elements are from the start of a block. -/
def measureTree : Tree :=
  list [word "do",
    list [word "let", word "sample",
      list [word "cast", list [word "ptr", own "_block"],
        list [word "malloc", list [word "sizeof", own "_block"]]]],
    list [word "set", own "_cached_offset",
      list [word "-", list [word "addr", firstOf (word "sample")],
        list [word "addr", word "sample"]]],
    list [word "free", word "sample"]]

/-- The distance, which is measured when it is asked for first. -/
def dataOffsetBody : List Tree :=
  [list [word "if", list [word "<", own "_cached_offset", number 0], measureTree own],
    own "_cached_offset"]

/-- Takes a block for the elements and copies them there, with no owner but the first. -/
def arrayNewBody : List Tree :=
  [list [word "let", word "count", list [word "len", word "items"]],
    list [word "let", word "data", list [own "_data_offset"]],
    list [word "let", word "block",
      list [word "cast", list [word "ptr", own "_block"],
        list [word "malloc",
          list [word "+", word "data",
            list [word "*", word "count", list [word "sizeof", elem]]]]]],
    list [word "store", list [word "field", word "block", word "count"], number 0],
    list [word "store",
      list [word "field", list [word "field", word "block", word "payload"], word "length"],
      word "count"],
    list [word "seq_copy",
      list [word "cast", list [word "ptr", elem],
        list [word "offset",
          list [word "cast", list [word "ptr", word "u8"], word "block"], word "data"]],
      word "items"],
    list [word "make", self, word "block"]]

/-- The block behind a handle of an array. -/
def arrayBlockOf : Tree := list [word ".", word "array", word "block"]

/-- How many elements there are. -/
def lengthBody : List Tree :=
  [list [word "load",
    list [word "field", list [word "field", arrayBlockOf, word "payload"], word "length"]]]

/-- Where an element lies. -/
def indexAddressBody : List Tree := [list [word "offset", firstOf arrayBlockOf, word "index"]]

/-- An element. -/
def indexBody : List Tree :=
  [list [word "load", list [own "_index_address", word "array", word "index"]]]

/-- A function of an array and the place of an element. -/
def indexed (name result : Tree) (body : List Tree) : Tree :=
  list ([word "fun", name,
    list [list [word "array", self], list [word "index", word "u64"]], result] ++ body)

/-- The definitions of an array's operations. -/
def operationDefinitions : List Tree :=
  [list [word "global", own "_cached_offset", word "i64", number (-1)],
    list ([word "fun", own "_data_offset", list [], word "u64"] ++ dataOffsetBody own),
    unary (own "_new") "items" (list [word "seq", elem]) self (arrayNewBody self own elem),
    unary (own "_length") "array" self (word "u64") lengthBody,
    indexed self (own "_index_address") (list [word "ptr", elem]) indexAddressBody,
    indexed self (own "_index") elem (indexBody own)]

/-- The unit of an array's operations. -/
def operationsTree : Tree := list (word "do" :: operationDefinitions self own elem)

end Array

/-- The holes of the wrapper's template. -/
def wrapperHoles : List (String × HoleKind) :=
  [("w", .ident), ("T", .type), ("inner", .fragment)]

/-- The holes of the templates of arrays. -/
def arrayHoles : List (String × HoleKind) := [("a", .ident), ("T", .type)]

/-- A name with a hole pasted in front. -/
def pastedName (hole suffix : String) : Tree := word ("$\x7b" ++ hole ++ "\x7d" ++ suffix)

/-- Characters with a hole pasted in for each at sign. -/
def pasteList (hole text : List Char) : List Char :=
  text.flatMap fun c => if c = '@' then ['$', '\x7b'] ++ hole ++ ['\x7d'] else [c]

theorem toList_pasting {hole text : String} {cs : List Char} (h : text.toList = cs) :
    (pasting hole text).toList = pasteList hole.toList cs := by
  rw [pasting, String.toList_ofList, h]
  rfl

set_option maxRecDepth 20000 in
/-- **The template of wrappers is read as it was meant.** -/
theorem reads_wrapper : Template.Reads "rc" wrapper wrapperHoles
    (wrapperTree (word "$w") (pastedName "w") (word "$T") (word "$inner")) := by
  unfold Template.Reads
  refine Template.read_of_checks (Tree.alike · _)
    (toList_pasting String.toList_ofList) ?_
  decide +kernel

/-- **So is that of the payload of arrays**, -/
theorem reads_header : Template.Reads "array_header" header arrayHoles
    (headerTree (pastedName "a") (word "$T")) := by
  unfold Template.Reads
  refine Template.read_of_checks (Tree.alike · _)
    (toList_pasting String.toList_ofList) ?_
  decide +kernel

set_option maxRecDepth 20000 in
/-- and that of their operations. -/
theorem reads_operations : Template.Reads "array" operations arrayHoles
    (operationsTree (word "$a") (pastedName "a") (word "$T")) := by
  unfold Template.Reads
  refine Template.read_of_checks (Tree.alike · _)
    (toList_pasting String.toList_ofList) ?_
  decide +kernel

/-! ## Instances -/

section Instance

variable {b : Bindings}

theorem substitute_list (items : List Tree) :
    substitute b (list items) = list (items.map (substitute b)) := by
  rw [list, substitute, substituteAll_eq_map, list]

theorem substitute_number (n : Int64) : substitute b (number n) = number n := rfl

theorem substitute_word {name : String} (h : '$' ∉ name.toList) :
    substitute b (word name) = word name :=
  substituteSymbol_plain h default

theorem substitute_hole {symbol hole : String} {filling : Binding}
    (hshape : symbolShape symbol = .ok (.hole hole)) (hb : b.find? hole = some filling) :
    substitute b (word symbol) = filling.toTree default :=
  substituteSymbol_hole hshape hb default

theorem substitute_pasted {hole suffix name : String}
    (hshape : symbolShape ("$\x7b" ++ hole ++ "\x7d" ++ suffix) =
      .ok (.pasted [.hole hole, .text suffix.toList]))
    (hb : b.find? hole = some (.ident name)) :
    substitute b (pastedName hole suffix) = word (name ++ suffix) := by
  have h := substituteSymbol_pasted hshape hb default
  rwa [String.ofList_toList] at h

theorem respan_list (s : Span) (items : List Tree) :
    (list items).respan s = .node (items.map (Tree.respan s)) s := by
  rw [list, Tree.respan, Tree.respanAll_eq_map]

/-- The name of a container with something behind it. -/
def suffixed (name suffix : String) : Tree := word (name ++ suffix)

/-- **An instance of the wrapper's template** is the tree of a wrapper, spans apart. -/
theorem instance_wrapper {name : String} {type : TypeExpr} {definition f : Fragment}
    (h : Container.instantiate "rc" wrapper
      (.ofList [("w", .ident name), ("T", .type type), ("inner", .fragment definition)]) = .ok f) :
    f.root.respan default =
      (wrapperTree (word name) (suffixed name) type.tree definition.root).respan default := by
  obtain ⟨template, hread, -, halike⟩ := reads_wrapper
  rw [Container.instantiate, hread] at h
  have hroot := instantiate_eq (ok_of_mapError h)
  have hname : NameMap.find? (.ofList [("w", .ident name), ("T", .type type),
      ("inner", .fragment definition)]) "w" = some (Binding.ident name) := by
    simp [NameMap.ofList]
  have htype : NameMap.find? (.ofList [("w", .ident name), ("T", .type type),
      ("inner", .fragment definition)]) "T" = some (Binding.type type) := by
    simp [NameMap.ofList]
  have hinner : NameMap.find? (.ofList [("w", .ident name), ("T", .type type),
      ("inner", .fragment definition)]) "inner" = some (Binding.fragment definition) := by
    simp [NameMap.ofList]
  rw [hroot, substitute_alike halike]
  generalize NameMap.ofList [("w", Binding.ident name), ("T", .type type),
    ("inner", .fragment definition)] = b at hname htype hinner
  have hself : substitute b (word "$w") = word name := substitute_hole (by decide) hname
  have hpayload : substitute b (word "$T") = type.tree.respan default :=
    substitute_hole (by decide) htype
  have hdefinition : substitute b (word "$inner") = definition.root.respan default :=
    substitute_hole (by decide) hinner
  have hown : ∀ suffix ∈ ["_block", "_new", "_deref", "_duplicate", "_release", "_count"],
      substitute b (pastedName "w" suffix) = suffixed name suffix := by
    simp only [List.forall_mem_cons]
    refine ⟨?_, ?_, ?_, ?_, ?_, ?_, fun _ h => by cases h⟩
    all_goals exact substitute_pasted (by decide) hname
  simp only [List.forall_mem_cons] at hown
  simp (disch := decide) only [wrapperTree, wrapperDefinitions, unary, newBody, derefBody,
    duplicateBody, releaseBody, countBody, blockOf, countOf, substitute_list, substitute_number,
    substitute_word, hself, hpayload, hdefinition, hown, List.map_cons, List.map_nil,
    List.cons_append, List.nil_append, respan_list, Tree.respan_respan]

/-- What fills the holes of the templates of arrays. -/
def arrayBindings (name : String) (elem : TypeExpr) : Bindings :=
  .ofList [("a", .ident name), ("T", .type elem)]

section Arrays

variable {name : String} {elem : TypeExpr} {f : Fragment}

theorem find?_arrayBindings : (arrayBindings name elem).find? "a" = some (.ident name) ∧
    (arrayBindings name elem).find? "T" = some (.type elem) := by
  constructor <;> simp [arrayBindings, NameMap.ofList]

/-- **An instance of the header's template** is the struct of an array's payload, spans apart. -/
theorem instance_header
    (h : Container.instantiate "array_header" header (arrayBindings name elem) = .ok f) :
    f.root.respan default = (headerTree (suffixed name) elem.tree).respan default := by
  obtain ⟨template, hread, -, halike⟩ := reads_header
  rw [Container.instantiate, hread] at h
  obtain ⟨hname, htype⟩ := @find?_arrayBindings name elem
  rw [instantiate_eq (ok_of_mapError h), substitute_alike halike]
  have helem : substitute (arrayBindings name elem) (word "$T") = elem.tree.respan default :=
    substitute_hole (by decide) htype
  have hheader : substitute (arrayBindings name elem) (pastedName "a" "_header") =
      suffixed name "_header" := substitute_pasted (by decide) hname
  simp (disch := decide) only [headerTree, substitute_list, substitute_word, helem, hheader,
    List.map_cons, List.map_nil, respan_list, Tree.respan_respan]

/-- **An instance of the operations' template** is the unit of an array's operations, spans
apart. -/
theorem instance_operations
    (h : Container.instantiate "array" operations (arrayBindings name elem) = .ok f) :
    f.root.respan default =
      (operationsTree (word name) (suffixed name) elem.tree).respan default := by
  obtain ⟨template, hread, -, halike⟩ := reads_operations
  rw [Container.instantiate, hread] at h
  obtain ⟨hname, htype⟩ := @find?_arrayBindings name elem
  rw [instantiate_eq (ok_of_mapError h), substitute_alike halike]
  have hself : substitute (arrayBindings name elem) (word "$a") = word name :=
    substitute_hole (by decide) hname
  have helem : substitute (arrayBindings name elem) (word "$T") = elem.tree.respan default :=
    substitute_hole (by decide) htype
  have hown : ∀ suffix ∈ ["_cached_offset", "_data_offset", "_block", "_new", "_length",
      "_index_address", "_index"],
      substitute (arrayBindings name elem) (pastedName "a" suffix) = suffixed name suffix := by
    simp only [List.forall_mem_cons]
    refine ⟨?_, ?_, ?_, ?_, ?_, ?_, ?_, fun _ h => by cases h⟩
    all_goals exact substitute_pasted (by decide) hname
  simp only [List.forall_mem_cons] at hown
  simp (disch := decide) only [operationsTree, operationDefinitions, unary, indexed, dataOffsetBody,
    measureTree, arrayNewBody, lengthBody, indexAddressBody, indexBody, firstOf, arrayBlockOf,
    substitute_list, substitute_number, substitute_word, hself, helem, hown, List.map_cons,
    List.map_nil, List.cons_append, List.nil_append, respan_list, Tree.respan_respan]

end Arrays

end Instance

end Blueprint

end Kiln
