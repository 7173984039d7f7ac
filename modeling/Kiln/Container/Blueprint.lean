import Kiln.Template.Basic
/-!
# The templates of containers

A container is generated from fixed texts. A wrapper `w` around a payload `T` is a
pointer to a block that holds the payload behind the number of owners other than the
first. An array is a wrapper whose payload is a length and the first of its elements; the
others follow that one in the block.
-/

namespace Kiln

namespace Blueprint

/-- The text of a template that pastes one hole into many names. In `text` an at sign
stands for the pasted hole. -/
def pasting (hole text : String) : String :=
  String.ofList (text.toList.flatMap fun c =>
    if c = '@' then ['$', '\x7b'] ++ hole.toList ++ ['\x7d'] else [c])

/-- Wrappers that count their owners: the name `w`, the payload `T`, and what has to be
defined before the payload can be named. -/
def wrapper : String := pasting "w" "
(template ((w ident) (T type) (inner fragment))
  $inner
  (struct @_block
    (count i64)
    (payload $T))
  (struct $w
    (block (ptr @_block)))
  (fun @_new ((value $T)) $w
    (let block (cast (ptr @_block) (malloc (sizeof @_block))))
    (store (field block count) 0)
    (store (field block payload) value)
    (make $w block))
  (fun @_deref ((rc $w)) (ptr $T)
    (field (. rc block) payload))
  (fun @_duplicate ((rc $w)) $w
    (let count (field (. rc block) count))
    (store count (+ (load count) 1))
    (make $w (. rc block)))
  (fun @_release ((rc $w)) unit
    (let block (. rc block))
    (let remaining (- (load (field block count)) 1))
    (if (< remaining 0)
      (free block)
      (store (field block count) remaining)))
  ; total owners, including the first
  (fun @_count ((rc $w)) i64
    (+ (load (field (. rc block) count)) 1)))
"

/-- The payload of an array: the name `a` and the elements' type `T`. -/
def header : String := pasting "a" "
(template ((a ident) (T type))
  (struct @_header
    (length u64)
    (first $T)))
"

/-- The operations of an array, which see its wrapper. -/
def operations : String := pasting "a" "
(template ((a ident) (T type))
  (global @_cached_offset i64 -1)
  ; byte distance from the block start to the first element, measured once
  (fun @_data_offset () u64
    (if (< @_cached_offset 0)
      (do
        (let sample (cast (ptr @_block) (malloc (sizeof @_block))))
        (set @_cached_offset
          (- (addr (field (field sample payload) first)) (addr sample)))
        (free sample)))
    @_cached_offset)
  (fun @_new ((items (seq $T))) $a
    (let count (len items))
    (let data (@_data_offset))
    (let block (cast (ptr @_block)
      (malloc (+ data (* count (sizeof $T))))))
    (store (field block count) 0)
    (store (field (field block payload) length) count)
    (seq_copy (cast (ptr $T) (offset (cast (ptr u8) block) data)) items)
    (make $a block))
  (fun @_length ((array $a)) u64
    (load (field (field (. array block) payload) length)))
  ; unchecked
  (fun @_index_address ((array $a) (index u64)) (ptr $T)
    (offset (field (field (. array block) payload) first) index))
  (fun @_index ((array $a) (index u64)) $T
    (load (@_index_address array index))))
"

end Blueprint

end Kiln
