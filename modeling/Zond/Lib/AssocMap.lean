import Mathlib.Data.List.Dedup

/-!
# Association Maps

A finite map kept as a list of bindings, newest first. The representation is chosen to
compute: a concrete map reduces under `decide`, which a function-valued map does not.
Everything a client needs is said through `get`: every lemma below is a lemma about what
`get` returns after one operation.

## Main definitions

* `AssocMap.get`, `AssocMap.put`, `AssocMap.erase`: Read, write and remove.

## Theorems

* `AssocMap.get_put`, `AssocMap.get_erase`: What is read afterwards.
-/

/-- A finite map as a list of bindings, newest first. -/
structure AssocMap (α β : Type) where
  entries : List (α × β)

namespace AssocMap

variable {α β : Type} [DecidableEq α]

def empty : AssocMap α β := ⟨[]⟩

instance : Inhabited (AssocMap α β) := ⟨empty⟩

/-- The first value bound to a key along a list of bindings. -/
def find : List (α × β) → α → Option β
  | [], _ => none
  | (k, v) :: rest, key => if k = key then some v else find rest key

def get (m : AssocMap α β) (key : α) : Option β := find m.entries key

def put (m : AssocMap α β) (key : α) (v : β) : AssocMap α β := ⟨(key, v) :: m.entries⟩

def erase (m : AssocMap α β) (key : α) : AssocMap α β :=
  ⟨m.entries.filter (fun e => e.1 ≠ key)⟩

/-- Bind a key only if it holds nothing yet. -/
def putNew (m : AssocMap α β) (key : α) (v : β) : AssocMap α β :=
  match m.get key with
  | some _ => m
  | none => m.put key v

/-- The keys of the bindings, newest first, shadowed ones included. -/
def keys (m : AssocMap α β) : List α := m.entries.map Prod.fst

/-- The number of bindings, shadowed ones included. -/
def size (m : AssocMap α β) : Nat := m.entries.length

def len (m : AssocMap α β) : Nat := m.keys.dedup.length

@[simp] theorem get_empty (key : α) : (empty : AssocMap α β).get key = none := rfl

theorem get_put (m : AssocMap α β) (key key' : α) (v : β) :
    (m.put key v).get key' = if key = key' then some v else m.get key' := rfl

@[simp] theorem get_put_self (m : AssocMap α β) (key : α) (v : β) :
    (m.put key v).get key = some v := by
  rw [get_put, if_pos rfl]

theorem get_put_ne (m : AssocMap α β) {key key' : α} (v : β) (h : key ≠ key') :
    (m.put key v).get key' = m.get key' := by
  rw [get_put, if_neg h]

omit [DecidableEq α] in
theorem size_put (m : AssocMap α β) (key : α) (v : β) : (m.put key v).size = m.size + 1 := rfl

theorem find_filter_ne (l : List (α × β)) (key key' : α) :
    find (l.filter (fun e => e.1 ≠ key)) key' = if key = key' then none else find l key' := by
  induction l with
  | nil => simp only [List.filter_nil, find, ite_self]
  | cons e rest ih =>
    by_cases he : e.1 = key
    · rw [List.filter_cons_of_neg (by simpa only [ne_eq, decide_not, Bool.not_eq_true',
        decide_eq_false_iff_not, Decidable.not_not] using he), ih]
      by_cases hk : key = key'
      · rw [if_pos hk, if_pos hk]
      · rw [if_neg hk, if_neg hk, find, if_neg (by rw [he]; exact hk)]
    · rw [List.filter_cons_of_pos (by simpa only [ne_eq, decide_not, Bool.not_eq_true',
        decide_eq_false_iff_not] using he), find, find, ih]
      by_cases hk : key = key'
      · rw [if_pos hk, if_pos hk, if_neg (by rw [← hk]; exact he)]
      · rw [if_neg hk, if_neg hk]

theorem get_erase (m : AssocMap α β) (key key' : α) :
    (m.erase key).get key' = if key = key' then none else m.get key' :=
  find_filter_ne m.entries key key'

theorem get_putNew (m : AssocMap α β) (key key' : α) (v : β) : (m.putNew key v).get key'
      = if key = key' then some ((m.get key).getD v) else m.get key' := by
  unfold putNew
  by_cases hk : key = key'
  · rw [if_pos hk]
    subst hk
    cases hg : m.get key with
    | none => simp only [get_put_self, Option.getD_none]
    | some w => simp only [hg, Option.getD_some]
  · rw [if_neg hk]
    cases hg : m.get key with
    | none => simp only [get_put_ne m v hk]
    | some w => rfl

theorem get_putNew_of_some (m : AssocMap α β) (key key' : α) (v w : β)
    (h : m.get key' = some w) : (m.putNew key v).get key' = some w := by
  rw [get_putNew]
  by_cases hk : key = key'
  · rw [if_pos hk, hk, h, Option.getD_some]
  · rw [if_neg hk, h]

theorem mem_of_find {l : List (α × β)} {key : α} {v : β} (h : find l key = some v) :
    (key, v) ∈ l := by
  induction l with
  | nil => exact absurd h (by simp only [find, reduceCtorEq, not_false_eq_true])
  | cons e rest ih =>
    rw [find] at h
    by_cases he : e.1 = key
    · rw [if_pos he, Option.some.injEq] at h
      rw [← he, ← h]
      exact List.mem_cons_self
    · rw [if_neg he] at h
      exact List.mem_cons_of_mem _ (ih h)

theorem mem_keys {m : AssocMap α β} {key : α} {v : β} (h : m.get key = some v) : key ∈ m.keys :=
  List.mem_map_of_mem (f := Prod.fst) (mem_of_find h)

theorem mem_keys_iff {m : AssocMap α β} {key : α} : key ∈ m.keys ↔ (m.get key).isSome = true := by
  refine ⟨fun h => ?_, fun h => mem_keys (Option.some_get h).symm⟩
  rcases m with ⟨l⟩
  unfold keys get at *
  induction l with
  | nil => exact absurd h List.not_mem_nil
  | cons e rest ih =>
    rw [find]
    split
    · rfl
    · rename_i hne
      exact ih ((List.mem_cons.1 h).resolve_left fun heq => hne heq.symm)

theorem len_eq_length {m : AssocMap α β} {l : List α} (hnodup : l.Nodup)
    (hmem : ∀ key, key ∈ l ↔ (m.get key).isSome = true) : m.len = l.length := by
  refine ((List.perm_ext_iff_of_nodup m.keys.nodup_dedup hnodup).2 fun key => ?_).length_eq
  rw [List.mem_dedup, mem_keys_iff, hmem]

theorem len_put_le (m : AssocMap α β) (key : α) (v : β) : (m.put key v).len ≤ m.len + 1 := by
  have hkeys : (m.put key v).keys = key :: m.keys := rfl
  unfold len
  rw [hkeys]
  by_cases hmem : key ∈ m.keys
  · rw [List.dedup_cons_of_mem hmem]
    omega
  · exact Nat.le_of_eq (congrArg List.length (List.dedup_cons_of_notMem hmem))

theorem get_foldl_put_const (l : List α) (m : AssocMap α β) (v : β) (key : α) :
    (l.foldl (fun m k => m.put k v) m).get key = if key ∈ l then some v else m.get key := by
  induction l generalizing m with
  | nil => rw [List.foldl_nil, if_neg List.not_mem_nil]
  | cons k rest ih =>
    rw [List.foldl_cons, ih, get_put]
    by_cases hmem : key ∈ rest
    · rw [if_pos hmem, if_pos (List.mem_cons_of_mem k hmem)]
    · rw [if_neg hmem]
      by_cases hk : k = key
      · rw [if_pos hk, if_pos (hk ▸ List.mem_cons_self)]
      · rw [if_neg hk, if_neg]
        intro hin
        rcases List.mem_cons.1 hin with heq | hrest
        · exact hk heq.symm
        · exact hmem hrest

section Bindings

variable {γ : Type} (key : γ → α) (val : γ → β)

theorem get_foldl_put (l : List γ) (m : AssocMap α β) (k : α) :
    (l.foldl (fun m x => m.put (key x) (val x)) m).get k =
      (l.reverse.findSome? (fun x => if key x = k then some (val x) else none)).or (m.get k) := by
  induction l generalizing m with
  | nil => rfl
  | cons x rest ih =>
    rw [List.foldl_cons, ih, get_put, List.reverse_cons, List.findSome?_append, Option.or_assoc]
    congr 1
    by_cases hk : key x = k
    · rw [if_pos hk, List.findSome?_singleton, if_pos hk, Option.some_or]
    · rw [if_neg hk, List.findSome?_singleton, if_neg hk, Option.none_or]

theorem get_foldl_put_of_not_mem {l : List γ} {m : AssocMap α β} {k : α} (h : k ∉ l.map key) :
    (l.foldl (fun m x => m.put (key x) (val x)) m).get k = m.get k := by
  induction l generalizing m with
  | nil => rfl
  | cons x rest ih =>
    rw [List.map_cons, List.mem_cons, not_or] at h
    rw [List.foldl_cons, ih h.2]
    exact get_put_ne m (val x) (fun heq => h.1 heq.symm)

theorem get_foldl_put_of_mem {l : List γ} {m : AssocMap α β} (hnodup : (l.map key).Nodup)
    {x : γ} (hx : x ∈ l) :
    (l.foldl (fun m x => m.put (key x) (val x)) m).get (key x) = some (val x) := by
  induction l generalizing m with
  | nil => cases hx
  | cons y rest ih =>
    rw [List.map_cons, List.nodup_cons] at hnodup
    rw [List.foldl_cons]
    rcases List.mem_cons.1 hx with rfl | hx
    · rw [get_foldl_put_of_not_mem key val hnodup.1, get_put_self]
    · exact ih hnodup.2 hx

end Bindings

end AssocMap
