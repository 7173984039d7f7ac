import Kiln.Proofs.Container.Declared
import Kiln.Proofs.Container.Operations
import Kiln.Proofs.Lowering.Acceptance
/-!
# The bodies of a container are typed

Every function of a wrapper and every operation of an array has a body of a type that can be taken
for its result, whatever the container is called and whatever its elements are, so it is lowered
(`Container.Scene.lowers`, `Container.ArrayScene.lowers`). What this asks of the names a unit has is
said once (`Container.Scene`, `Container.ArrayScene`), so that the unit of a wrapper, which defines
the structs, and that of the operations, which sees them in another module, have the same to show.
-/

namespace Kiln

open Blueprint Lowering

namespace Container

variable {names : Names} {name : String} {G : Context}

/-! ## Names -/

/-- No name that starts with this one means anything to the language itself, and there is no hole in
it. -/
structure Free (name : String) : Prop where
  unreserved : ∀ suffix : String, isReserved (name ++ suffix) = false
  plain : '$' ∉ name.toList

theorem Free.declaredName_suffixed (h : Free name) (suffix : String) (hsuffix : '$' ∉ suffix.toList)
    (what : Noun) :
    declaredName (suffixed name suffix) what = .ok (name ++ suffix) := by
  have hplain : (name ++ suffix).toList.contains '$' = false := by
    rw [Bool.eq_false_iff, ne_eq, List.contains_iff_mem, String.toList_append, List.mem_append]
    exact fun hmem => hmem.elim h.plain hsuffix
  unfold declaredName
  dsimp only [suffixed, word, Tree.symbol?]
  rw [h.unreserved, if_neg Bool.false_ne_true, hplain, if_neg Bool.false_ne_true]

theorem Free.declaredName_self (h : Free name) (what : Noun) :
    declaredName (word name) what = .ok name := by
  have hself := h.declaredName_suffixed "" List.not_mem_nil what
  rwa [suffixed, String.append_empty] at hself

/-- The words with a meaning of their own. -/
theorem mem_of_isReserved {name : String} (h : isReserved name = true) :
    name ∈ Form.words.map (·.1) ++ declarationWords ++ Ty.primitiveNames ++
      BinaryOp.symbols.map (·.1) := by
  have hlookup : ∀ {α : Type} {table : List (String × α)}, (table.lookup name).isSome = true →
      name ∈ table.map (·.1) := by
    intro α table hsome
    obtain ⟨a, ha⟩ := Option.isSome_iff_exists.1 hsome
    obtain ⟨before, after, rfl, -⟩ := List.lookup_eq_some_iff.1 ha
    exact List.mem_map.2 ⟨(name, a), List.mem_append_right before List.mem_cons_self, rfl⟩
  unfold isReserved at h
  rw [Bool.or_eq_true, Bool.or_eq_true, Bool.or_eq_true] at h
  simp only [List.mem_append]
  rcases h with ((h | h) | h) | h
  · exact .inl (.inl (.inl (hlookup h)))
  · exact .inl (.inl (.inr (List.contains_iff_mem.1 h)))
  · exact .inl (.inr (List.contains_iff_mem.1 h))
  · exact .inr (hlookup h)

/-- **The names of arrays are free.** -/
theorem free_arrayName (elem : TypeExpr) : Free elem.arrayName := by
  refine ⟨fun suffix => ?_, (Template.isFillingName_iff.1 elem.isFillingName_arrayName).2⟩
  rw [Bool.eq_false_iff]
  intro hreserved
  have hno :
      ∀ word ∈ Form.words.map (·.1) ++ declarationWords ++ Ty.primitiveNames ++
        BinaryOp.symbols.map (·.1),
      ¬"array_".toList <+: word.toList := by decide
  refine hno _ (mem_of_isReserved hreserved) ⟨elem.mangled.toList ++ suffix.toList, ?_⟩
  rw [TypeExpr.arrayName, String.toList_append, String.toList_append, List.append_assoc]

/-! ## Blocks and handles -/

/-- What the bodies of a container's functions are typed with: the structs of its handles and of its
blocks, a payload, and the functions that take and give back blocks. -/
structure Scene (names : Names) (name : String) (handle block : StructRef)
    (payload : Ty) : Prop where
  self_type : names.resolveType (word name) = .ok (.struct handle)
  block_type : names.resolveType (suffixed name "_block") = .ok (.struct block)
  self_fields : names.layouts.HasFields handle [("block", .ptr (.struct block))]
  block_fields : names.layouts.HasFields block [("count", .i64), ("payload", payload)]
  malloc : names.function? "malloc" = some (.foreign ⟨0⟩ 0, [("size", .u64)], .bytePtr)
  free : names.function? "free" = some (.foreign ⟨0⟩ 1, [("ptr", .bytePtr)], .unit)

namespace Scene

variable {handle block : StructRef} {payload : Ty} (h : Scene names name handle block payload)

include h

theorem spelled_pointer :
    names.resolveType (list [word "ptr", suffixed name "_block"]) = .ok (.ptr (.struct block)) :=
  congrArg (Except.map Ty.ptr) h.block_type

/-- Memory that is taken for a block. -/
theorem allocated {size : Tree} (hsize : names.Types G size .u64) :
    names.Types G
      (list [word "cast", list [word "ptr", suffixed name "_block"], list [word "malloc", size]])
      (.ptr (.struct block)) :=
  .cast rfl h.spelled_pointer (.call rfl rfl rfl h.malloc (.cons (.of_types hsize) .nil)) rfl

theorem fresh : names.Types G (list [word "cast", list [word "ptr", suffixed name "_block"],
    list [word "malloc", list [word "sizeof", suffixed name "_block"]]]) (.ptr (.struct block)) :=
  h.allocated (.sizeOf rfl h.block_type)

theorem blockOf {owner : Tree} (howner : names.Types G owner (.struct handle)) :
    names.Types G (list [word ".", owner, word "block"]) (.ptr (.struct block)) :=
  .fieldValue rfl howner h.self_fields rfl

variable {place : Tree} (hplace : names.Types G place (.ptr (.struct block)))

include hplace

theorem count_place : names.Types G (list [word "field", place, word "count"]) (.ptr .i64) :=
  .fieldPointer rfl hplace h.block_fields rfl

theorem payload_place : names.Types G (list [word "field", place, word "payload"]) (.ptr payload) :=
  .fieldPointer rfl hplace h.block_fields rfl

theorem made : names.Types G (list [word "make", word name, place]) (.struct handle) :=
  .make rfl h.self_type h.self_fields (.cons (.of_types hplace) .nil)

theorem freed : names.Types G (list [word "free", place]) .unit :=
  .call rfl rfl rfl h.free (.cons ⟨_, hplace, rfl⟩ .nil)

end Scene

/-! ## The functions of a wrapper -/

/-- A function with its body, before that is lowered. -/
def formOf (f : Source.Fun) : FunctionForm := ⟨⟨f.name, f.params, f.result⟩, f.body, default⟩

namespace Scene

variable {handle block : StructRef} {payload : Ty} (h : Scene names name handle block payload)

include h

theorem row_new (hstorable : payload.isStorable = true) :
    names.Row [[], [("value", payload)]] .unit (newBody (word name) (suffixed name))
      (.struct handle) :=
  .bind rfl rfl h.fresh <|
    .value (.store rfl (h.count_place (.slot rfl)) rfl (.of_types (.number 0))) <|
    .value (.store rfl (h.payload_place (.slot rfl)) hstorable (.of_types (.slot rfl))) <|
    .value (h.made (.slot rfl)) .nil

theorem row_deref : names.Row [[], [("rc", .struct handle)]] .unit derefBody (.ptr payload) :=
  .value (h.payload_place (h.blockOf (.slot rfl))) .nil

theorem row_duplicate :
    names.Row [[], [("rc", .struct handle)]] .unit (duplicateBody (word name)) (.struct handle) :=
  .bind rfl rfl (h.count_place (h.blockOf (.slot rfl))) <|
    .value (.store rfl (.slot rfl) rfl
      (.of_types (.arithmetic rfl rfl rfl (.load rfl (.slot rfl) rfl) rfl (.number 1) rfl))) <|
    .value (h.made (h.blockOf (.slot rfl))) .nil

theorem row_release : names.Row [[], [("rc", .struct handle)]] .unit releaseBody .unit :=
  .bind rfl rfl (h.blockOf (.slot rfl)) <|
    .bind rfl rfl
      (.arithmetic rfl rfl rfl (.load rfl (h.count_place (.slot rfl)) rfl) rfl (.number 1) rfl) <|
    .value (.branch rfl (.of_types (.ordering rfl rfl rfl rfl (.slot rfl) rfl (.number 0) rfl))
      (h.freed (.slot rfl)) (.store rfl (h.count_place (.slot rfl)) rfl (.of_types (.slot rfl))))
      .nil

theorem row_count : names.Row [[], [("rc", .struct handle)]] .unit countBody .i64 :=
  .value (.arithmetic rfl rfl rfl (.load rfl (h.count_place (h.blockOf (.slot rfl))) rfl) rfl
    (.number 1) rfl) .nil

/-- **The functions of a wrapper are lowered** around what memory can hold. -/
theorem lowers (hstorable : payload.isStorable = true) :
    ∀ f ∈ (Wraps.functions name (.struct handle) payload).map formOf,
      ∃ g, names.lowerFunction f = .ok g := by
  simp only [Wraps.functions, List.map_cons, List.map_nil, List.forall_mem_cons]
  refine ⟨?_, ?_, ?_, ?_, ?_, fun _ hmem => absurd hmem List.not_mem_nil⟩
  · exact names.exists_lowerFunction (h.row_new hstorable) (.inr (isAssignable_self _))
  · exact names.exists_lowerFunction h.row_deref (.inr (isAssignable_self _))
  · exact names.exists_lowerFunction h.row_duplicate (.inr (isAssignable_self _))
  · exact names.exists_lowerFunction h.row_release (.inl rfl)
  · exact names.exists_lowerFunction h.row_count (.inr rfl)

end Scene

/-! ## The operations of an array -/

/-- What the bodies of an array's operations are typed with besides: the struct of its headers, the
type of the elements, and the global and the operations that others make use of. -/
structure ArrayScene (names : Names) (name : String) (elem : Tree) (handle block header : StructRef)
    (t : Ty) : Prop
    extends Scene names name handle block (.struct header) where
  header_fields : names.layouts.HasFields header [("length", .u64), ("first", t)]
  elem_type : names.resolveType elem = .ok t
  cached : names.ownGlobal? (name ++ "_cached_offset") = some (0, .i64)
  dataOffset : ∃ callee, names.function? (name ++ "_data_offset") = some (callee, [], .u64)
  indexAddress : ∃ callee, names.function? (name ++ "_index_address") =
    some (callee, [("array", .struct handle), ("index", .u64)], .ptr t)

namespace ArrayScene

variable {elem : Tree} {handle block header : StructRef} {t : Ty}
  (h : ArrayScene names name elem handle block header t)

omit h in
/-- A call of an operation, whose name ends as no word of the language does. -/
theorem called {suffix : String} {callee : Callee} {params : List Param} {result : Ty}
    {args : List Tree} (hop : ∀ p ∈ BinaryOp.symbols, ¬suffix.toList <:+ p.1.toList)
    (hform : ∀ p ∈ Form.words, ¬suffix.toList <:+ p.1.toList)
    (hfunction : names.function? (name ++ suffix) = some (callee, params, result))
    (hargs : List.Forall₂ (fun t (p : Param) => names.Suits G t p.2) args params) :
    names.Types G (list (suffixed name suffix :: args)) result :=
  .call rfl (Indexed.lookup_suffixed hop) (Indexed.lookup_suffixed hform) hfunction hargs

include h

theorem length_place {place : Tree} (hplace : names.Types G place (.ptr (.struct block))) :
    names.Types G (list [word "field", list [word "field", place, word "payload"], word "length"])
      (.ptr .u64) :=
  .fieldPointer rfl (h.payload_place hplace) h.header_fields rfl

theorem first_place {place : Tree} (hplace : names.Types G place (.ptr (.struct block))) :
    names.Types G (firstOf place) (.ptr t) :=
  .fieldPointer rfl (h.payload_place hplace) h.header_fields rfl

theorem measured (hG : G.flatten = []) : names.Types G (measureTree (suffixed name)) .unit := by
  have hvisible : (Context.declare ([] :: G) "sample" (.ptr (.struct block))).find?
      (name ++ "_cached_offset") = none := by
    have hne : "sample" ≠ name ++ "_cached_offset" := (Wraps.append_ne (by decide)).symm
    simp [Context.find?, Context.declare, hG, hne]
  have hset : names.Types (Context.declare ([] :: G) "sample" (.ptr (.struct block)))
      (list [word "set", suffixed name "_cached_offset",
        list [word "-", list [word "addr", firstOf (word "sample")],
          list [word "addr", word "sample"]]]) .unit :=
    .assign rfl hvisible h.cached
      ⟨.u64, .arithmetic rfl rfl rfl (.address rfl (h.first_place (.slot rfl))) rfl
        (.address rfl (.slot rfl)) rfl, rfl⟩
  exact .sequence rfl (.bind rfl rfl h.fresh (.value hset (.value (h.freed (.slot rfl)) .nil)))

theorem row_dataOffset : names.Row [[], []] .unit (dataOffsetBody (suffixed name)) .i64 :=
  .value (.when rfl
    (.of_types (.ordering rfl rfl rfl rfl (.ownGlobal rfl h.cached) rfl (.number 0) rfl))
      (h.measured rfl)) <|
    .value (.ownGlobal rfl h.cached) .nil

theorem row_new :
    names.Row [[], [("items", .seq t)]] .unit (arrayNewBody (word name) (suffixed name) elem)
    (.struct handle) := by
  obtain ⟨callee, hdataOffset⟩ := h.dataOffset
  have hspelled : names.resolveType (list [word "ptr", elem]) = .ok (.ptr t) :=
    congrArg (Except.map Ty.ptr) h.elem_type
  have hcast : isCastable (.ptr .u8) (.ptr t) = true := by simp [isCastable]
  exact .bind rfl rfl (.length rfl (.slot rfl)) <|
    .bind rfl rfl (called (by decide) (by decide) hdataOffset .nil) <|
    .bind rfl rfl (h.allocated (.arithmetic rfl rfl rfl (.slot rfl) rfl
      (.arithmetic rfl rfl rfl (.slot rfl) rfl (.sizeOf rfl h.elem_type) rfl) rfl)) <|
    .value (.store rfl (h.count_place (.slot rfl)) rfl (.of_types (.number 0))) <|
    .value (.store rfl (h.length_place (.slot rfl)) rfl (.of_types (.slot rfl))) <|
    .value (.copySequence rfl
      (.cast rfl hspelled (.offset rfl (.cast rfl rfl (.slot rfl) rfl) (.slot rfl) rfl) hcast)
        (.slot rfl)) <|
    .value (h.made (.slot rfl)) .nil

theorem row_length : names.Row [[], [("array", .struct handle)]] .unit lengthBody .u64 :=
  .value (.load rfl (h.length_place (h.blockOf (.slot rfl))) rfl) .nil

theorem row_indexAddress :
    names.Row [[], [("index", .u64), ("array", .struct handle)]] .unit indexAddressBody (.ptr t) :=
  .value (.offset rfl (h.first_place (h.blockOf (.slot rfl))) (.slot rfl) rfl) .nil

theorem row_index (hstorable : t.isStorable = true) :
    names.Row [[], [("index", .u64), ("array", .struct handle)]] .unit
      (indexBody (suffixed name)) t := by
  obtain ⟨callee, hindexAddress⟩ := h.indexAddress
  exact .value (.load rfl (called (by decide) (by decide) hindexAddress
    (.cons (.of_types (.slot rfl)) (.cons (.of_types (.slot rfl)) .nil))) hstorable) .nil

/-- **The operations of an array are lowered** for elements that memory can hold. -/
theorem lowers (hstorable : t.isStorable = true) :
    ∀ f ∈ (Indexed.functions name (.struct handle) t elem).map formOf,
      ∃ g, names.lowerFunction f = .ok g := by
  simp only [Indexed.functions, List.map_cons, List.map_nil, List.forall_mem_cons]
  refine ⟨?_, ?_, ?_, ?_, ?_, fun _ hmem => absurd hmem List.not_mem_nil⟩
  · exact names.exists_lowerFunction h.row_dataOffset (.inr rfl)
  · exact names.exists_lowerFunction h.row_new (.inr (isAssignable_self _))
  · exact names.exists_lowerFunction h.row_length (.inr rfl)
  · exact names.exists_lowerFunction h.row_indexAddress (.inr (isAssignable_self _))
  · exact names.exists_lowerFunction (h.row_index hstorable) (.inr (isAssignable_self _))

end ArrayScene

end Container

end Kiln
