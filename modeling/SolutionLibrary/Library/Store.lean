import Mathlib.Order.Lattice
import Mathlib.Data.List.Lex
import Mathlib.Data.List.Nodup
import SolutionLibrary.Library.Journal

namespace solution_library.store

/-- A store of objects, listed in the order of their keys. -/
structure Store (κ β : Type*) [LinearOrder κ] where
  entries : List (κ × β)
  sorted : entries.Pairwise fun a b => a.1 < b.1

namespace Store

variable {κ β : Type*} [LinearOrder κ]

def empty : Store κ β :=
  ⟨[], .nil⟩

def get (s : Store κ β) (key : κ) : Option β :=
  (s.entries.find? (·.1 = key)).map Prod.snd

def keys (s : Store κ β) : List κ :=
  s.entries.map Prod.fst

def put (s : Store κ β) (key : κ) (value : β) : Store κ β where
  entries := s.entries.filter (·.1 < key) ++ (key, value) :: s.entries.filter (key < ·.1)
  sorted := by
    rw [List.pairwise_append, List.pairwise_cons]
    refine ⟨s.sorted.filter _, ⟨fun entry h => ?_, s.sorted.filter _⟩, fun lower hlower entry h => ?_⟩
    · exact of_decide_eq_true (List.mem_filter.mp h).2
    · have hlt : lower.1 < key := of_decide_eq_true (List.mem_filter.mp hlower).2
      obtain rfl | h := List.mem_cons.mp h
      · exact hlt
      · exact hlt.trans (of_decide_eq_true (List.mem_filter.mp h).2)

def erase (s : Store κ β) (key : κ) : Store κ β where
  entries := s.entries.filter (·.1 ≠ key)
  sorted := s.sorted.filter _

/-- One page of a listing: the first keys with a property, in order. -/
def page (s : Store κ β) (listed : κ → Bool) (size : ℕ) : List κ :=
  (s.keys.filter listed).take size

/-- The keys with a property that come before one in a listing. -/
def before (s : Store κ β) (listed : κ → Bool) (key : κ) : List κ :=
  s.keys.filter fun other => listed other && other < key

section lemmas

variable {s : Store κ β} {key other : κ} {value : β}

theorem sorted_keys (s : Store κ β) : s.keys.Pairwise (· < ·) :=
  List.pairwise_map.mpr s.sorted

theorem nodup_keys (s : Store κ β) : s.keys.Nodup :=
  s.sorted_keys.imp ne_of_lt

theorem get_eq_some_iff : s.get key = some value ↔ (key, value) ∈ s.entries := by
  rw [get, Option.map_eq_some_iff]
  constructor
  · rintro ⟨⟨found, _⟩, hfind, rfl⟩
    have hfound : found = key := by simpa using List.find?_some hfind
    exact hfound ▸ List.mem_of_find?_eq_some hfind
  · intro hmem
    have hsome : (s.entries.find? (·.1 = key)).isSome := List.find?_isSome.mpr ⟨_, hmem, by simp⟩
    obtain ⟨entry, hfind⟩ := Option.isSome_iff_exists.mp hsome
    have hfound : entry.1 = key := by simpa using List.find?_some hfind
    have hentry := List.inj_on_of_nodup_map s.nodup_keys (List.mem_of_find?_eq_some hfind) hmem hfound
    exact ⟨entry, hfind, congrArg Prod.snd hentry⟩

theorem mem_keys_iff : key ∈ s.keys ↔ ∃ value, s.get key = some value := by
  simp [keys, get_eq_some_iff]

theorem mem_put_iff {v : β} : (other, v) ∈ (s.put key value).entries ↔
    (other = key ∧ v = value) ∨ (other ≠ key ∧ (other, v) ∈ s.entries) := by
  simp only [put, List.mem_append, List.mem_cons, List.mem_filter, decide_eq_true_eq, Prod.mk.injEq]
  obtain h | rfl | h := lt_trichotomy other key
  · simp [h, h.ne, h.not_gt]
  · simp
  · simp [h, h.ne', h.not_gt]

@[simp]
theorem get_put_self (s : Store κ β) (key : κ) (value : β) : (s.put key value).get key = some value :=
  get_eq_some_iff.mpr (mem_put_iff.mpr (.inl ⟨rfl, rfl⟩))

theorem get_put_of_ne (s : Store κ β) (value : β) (h : other ≠ key) : (s.put key value).get other = s.get other := by
  ext v
  rw [get_eq_some_iff, get_eq_some_iff, mem_put_iff]
  tauto

theorem get_erase_of_ne (s : Store κ β) (h : other ≠ key) : (s.erase key).get other = s.get other := by
  ext v
  rw [get_eq_some_iff, get_eq_some_iff, erase, List.mem_filter]
  simp [h]

/-- A store is what is got from it. -/
theorem ext_get {s t : Store κ β} (h : ∀ key, s.get key = t.get key) : s = t := by
  have hmem : ∀ entry, entry ∈ s.entries ↔ entry ∈ t.entries := fun entry => by
    rw [← get_eq_some_iff, ← get_eq_some_iff, h]
  have hperm : s.entries.Perm t.entries :=
    (List.perm_ext_iff_of_nodup (s.nodup_keys.of_map _) (t.nodup_keys.of_map _)).mpr hmem
  have hentries : s.entries = t.entries :=
    hperm.eq_of_pairwise (fun _ _ _ _ hab hba => absurd hba hab.asymm) s.sorted t.sorted
  cases s
  cases t
  cases hentries
  rfl

@[simp]
theorem get_empty (key : κ) : (empty : Store κ β).get key = none :=
  rfl

end lemmas

section page

variable {key : κ} {xs : List κ}

/-- In order, a key is among the first ones when few keys come before it. -/
theorem mem_take_iff_of_sorted {size : ℕ} (hxs : xs.Pairwise (· < ·)) :
    key ∈ xs.take size ↔ key ∈ xs ∧ (xs.filter (· < key)).length < size := by
  induction xs generalizing size with
  | nil => simp
  | cons x xs ih =>
    obtain ⟨hx, hxs⟩ := List.pairwise_cons.mp hxs
    cases size with
    | zero => simp
    | succ size =>
      rw [List.take_succ_cons, List.mem_cons, List.mem_cons, ih hxs]
      obtain hlt | rfl | hlt := lt_trichotomy x key
      · simp [hlt, hlt.ne']
      · have hnone : xs.filter (· < x) = [] := List.filter_eq_nil_iff.mpr fun y hy => by simpa using (hx y hy).le
        simp [hnone]
      · have hnot : key ∉ xs := fun hmem => (hx key hmem).not_gt hlt
        simp [hnot, hlt.ne]

theorem le_of_mem_sorted_cons (hxs : (key :: xs).Pairwise (· < ·)) : ∀ other ∈ key :: xs, key ≤ other :=
  List.forall_mem_cons.mpr ⟨le_rfl, fun _ hother => (List.rel_of_pairwise_cons hxs hother).le⟩

theorem sorted_page (s : Store κ β) (listed : κ → Bool) (size : ℕ) : (s.page listed size).Pairwise (· < ·) :=
  (s.sorted_keys.filter _).sublist (List.take_sublist _ _)

/-- A listed key is on the page when fewer listed keys than fit come before it. -/
theorem mem_page_iff {s : Store κ β} {listed : κ → Bool} {size : ℕ} : key ∈ s.page listed size ↔
    (key ∈ s.keys ∧ listed key) ∧ (s.before listed key).length < size := by
  rw [page, before, mem_take_iff_of_sorted (s.sorted_keys.filter _), List.mem_filter, List.filter_filter]
  simp only [Bool.and_comm]

theorem mem_before_iff {s : Store κ β} {listed : κ → Bool} {other : κ} :
    other ∈ s.before listed key ↔ other ∈ s.keys ∧ listed other ∧ other < key := by
  simp [before]

theorem length_before_mono {s : Store κ β} {listed : κ → Bool} {other : κ} (h : other ≤ key) :
    (s.before listed other).length ≤ (s.before listed key).length := by
  refine (List.monotone_filter_right s.keys fun x hx => ?_).length_le
  simp only [Bool.and_eq_true, decide_eq_true_eq] at hx ⊢
  exact ⟨hx.1, hx.2.trans_le h⟩

end page

/-- The store after a series of writes. -/
def putAll (s : Store κ β) (writes : List (κ × β)) : Store κ β :=
  writes.foldl (fun s write => s.put write.1 write.2) s

section putAll

variable {s : Store κ β} {first second : List (κ × β)}

theorem putAll_append (s : Store κ β) (first second : List (κ × β)) :
    s.putAll (first ++ second) = (s.putAll first).putAll second :=
  List.foldl_append ..

theorem get_putAll (s : Store κ β) (writes : List (κ × β)) (key : κ) :
    (s.putAll writes).get key = journal.last Prod.fst (fun write => some write.2) writes key (s.get key) := by
  induction writes generalizing s with
  | nil => rfl
  | cons write writes ih =>
    have hput : (s.put write.1 write.2).get key = if write.1 = key then some write.2 else s.get key := by
      split_ifs with hkey
      · rw [← hkey, get_put_self]
      · exact get_put_of_ne s write.2 (Ne.symm hkey)
    rw [journal.last, List.foldl_cons, ← hput]
    exact ih _

theorem get_putAll_of_ne {writes : List (κ × β)} {key : κ} (h : ∀ write ∈ writes, write.1 ≠ key) :
    (s.putAll writes).get key = s.get key := by
  rw [get_putAll, journal.last_of_forall_ne h]

/-- With one value for each key, neither the order of the writes nor how often
they are made matters. A series of some of them gives the same store as all of
them exactly if it leaves none out. -/
theorem putAll_eq_iff (hsome : first ⊆ second)
    (hone : ∀ write ∈ second, ∀ other ∈ second, write.1 = other.1 → write = other)
    (hnew : ∀ write ∈ second, s.get write.1 = none) : s.putAll first = s.putAll second ↔ second ⊆ first := by
  have hwritten {writes : List (κ × β)} (hwrites : writes ⊆ second) {write : κ × β} (hwrite : write ∈ writes) :
      (s.putAll writes).get write.1 = some write.2 := by
    rw [get_putAll]
    refine journal.last_of_forall_eq (fun other hother hkey => ?_) ⟨write, hwrite, rfl⟩ _
    rw [hone other (hwrites hother) write (hwrites hwrite) hkey]
  constructor
  · intro heq write hwrite
    by_contra hnot
    have hget := hwritten (List.Subset.refl _) hwrite
    rw [← heq, get_putAll_of_ne, hnew write hwrite] at hget
    · cases hget
    · intro other hother hkey
      exact hnot (hone other (hsome hother) write hwrite hkey ▸ hother)
  · intro hall
    refine ext_get fun key => ?_
    by_cases hkey : ∃ write ∈ second, write.1 = key
    · obtain ⟨write, hwrite, rfl⟩ := hkey
      rw [hwritten hsome (hall hwrite), hwritten (List.Subset.refl _) hwrite]
    · have hsecond : ∀ write ∈ second, write.1 ≠ key := fun write hwrite heq => hkey ⟨write, hwrite, heq⟩
      rw [get_putAll_of_ne fun write hwrite => hsecond write (hsome hwrite), get_putAll_of_ne hsecond]

end putAll

end Store

end solution_library.store
