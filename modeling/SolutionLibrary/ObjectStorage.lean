import Mathlib.Data.Char
import Mathlib.Data.List.Infix
import SolutionLibrary.Library.Store

open solution_library.store

namespace solution_library.object_storage

abbrev Key := List Char

/-- How a call ends: well, with a `ClientError`, or with another exception, which
nothing catches. -/
inductive Reply where
  | ok
  | clientError
  | raised
  deriving DecidableEq

/-- How `put_object` ends. After an exception that nothing catches the object may
have been stored. -/
inductive Put where
  | ok
  | clientError
  | raised (stored : Bool)
  deriving DecidableEq

def Put.stores : Put → Bool
  | .ok => true
  | .clientError => false
  | .raised stored => stored

section bucket

variable {β : Type*} {bucket : Store Key β} {key other keyPrefix : Key}

def Put.store (put : Put) (bucket : Store Key β) (key : Key) (content : β) : Store Key β :=
  if put.stores then bucket.put key content else bucket

theorem Put.get_store (put : Put) (bucket : Store Key β) (key other : Key) (content : β) :
    (put.store bucket key content).get other =
      if put.stores = true ∧ other = key then some content else bucket.get other := by
  unfold Put.store
  cases put.stores with
  | false => simp
  | true =>
    by_cases h : other = key
    · simp [h]
    · simp [h, Store.get_put_of_ne]

/-- Two keys with a common prefix are the same when what follows it is. -/
theorem eq_of_drop_eq (hkey : keyPrefix <+: key) (hother : keyPrefix <+: other)
    (h : key.drop keyPrefix.length = other.drop keyPrefix.length) : key = other := by
  obtain ⟨rest, rfl⟩ := hkey
  obtain ⟨rest', rfl⟩ := hother
  simpa using h

/-- One call of `list_objects_v2`: it gives at most 1000 keys. -/
def list_objects_v2 (bucket : Store Key β) (keyPrefix : Key) : List Key :=
  bucket.page (keyPrefix.isPrefixOf ·) 1000

theorem mem_list_objects_v2 (h : key ∈ list_objects_v2 bucket keyPrefix) : keyPrefix <+: key := by
  have hfilter := List.mem_filter.mp (List.mem_of_mem_take h)
  exact List.isPrefixOf_iff_prefix.mp hfilter.2

theorem sorted_list_objects_v2 (bucket : Store Key β) (keyPrefix : Key) :
    (list_objects_v2 bucket keyPrefix).Pairwise (· < ·) :=
  bucket.sorted_page _ _

theorem nodup_list_objects_v2 (bucket : Store Key β) (keyPrefix : Key) : (list_objects_v2 bucket keyPrefix).Nodup :=
  (sorted_list_objects_v2 bucket keyPrefix).imp ne_of_lt

/-- Less than a page of the keys with a prefix comes before a key. -/
def OnFirstPage (bucket : Store Key β) (keyPrefix key : Key) : Prop :=
  (bucket.before (keyPrefix.isPrefixOf ·) key).length < 1000

theorem mem_list_objects_v2_iff : key ∈ list_objects_v2 bucket keyPrefix ↔
    (key ∈ bucket.keys ∧ keyPrefix <+: key) ∧ OnFirstPage bucket keyPrefix key := by
  rw [list_objects_v2, Store.mem_page_iff, OnFirstPage, List.isPrefixOf_iff_prefix]

theorem OnFirstPage.mono (h : OnFirstPage bucket keyPrefix key) (hle : other ≤ key) :
    OnFirstPage bucket keyPrefix other :=
  (Store.length_before_mono hle).trans_lt h

end bucket

end solution_library.object_storage
