import LainOS.LainFS.Dirent
import LainOS.Lib.Trim

/-!
# The registry

A table of 96 slots for keys and values. `registry_set` overwrites the value of a key or takes the
first unused slot, and no slot is ever freed, so the used slots are the first ones.
-/

namespace Shell

open LainFS List Function

variable {i : Fin registryMaxEntries} {e : RegistryEntry}

def registryMaxEntries : ℕ := 96
def registryKeySize : ℕ := 48
def registryValueSize : ℕ := 96

def registryOk : ℤ := 0
def registryErrInput : ℤ := -1
def registryErrFull : ℤ := -3
def registryErrTooLong : ℤ := -4

structure RegistryEntry where
  key : List UInt8
  value : List UInt8
  deriving DecidableEq

/-- An unused slot is `none`. -/
abbrev Registry := Fin registryMaxEntries → Option RegistryEntry

def Registry.empty : Registry := fun _ => none

/-- A string cut to what fits in an array with its NUL. -/
def registryCopy (dstSize : ℕ) (src : List UInt8) : List UInt8 := src.take (dstSize - 1)

def registryFind (r : Registry) (key : List UInt8) : Option (Fin registryMaxEntries) :=
  (List.finRange registryMaxEntries).find? fun i => (r i).any (·.key == key)

def registryFindUnused (r : Registry) : Option (Fin registryMaxEntries) :=
  (List.finRange registryMaxEntries).find? fun i => (r i).isNone

/-- The status and the table; the save hook reads the table only. -/
def registrySet (r : Registry) (key value : List UInt8) : ℤ × Registry :=
  if key = [] then (registryErrInput, r)
  else if key.length ≥ registryKeySize ∨ value.length ≥ registryValueSize then
    (registryErrTooLong, r)
  else
    match registryFind r key with
    | some i =>
      (registryOk, update r i
        ((r i).map fun e => { e with value := registryCopy registryValueSize value }))
    | none =>
      match registryFindUnused r with
      | none => (registryErrFull, r)
      | some i =>
        (registryOk, update r i
          (some ⟨registryCopy registryKeySize key, registryCopy registryValueSize value⟩))

def registryEntries (r : Registry) : List RegistryEntry :=
  (List.finRange registryMaxEntries).filterMap r

def registryCount (r : Registry) : ℕ := (registryEntries r).length

/-- The used slot after `index` other ones. -/
def registryKeyAt (r : Registry) (index : ℕ) : Option (List UInt8) :=
  (registryEntries r)[index]?.map (·.key)

def registryValueAt (r : Registry) (index : ℕ) : Option (List UInt8) :=
  (registryEntries r)[index]?.map (·.value)

/-- The registry after a run of calls of `registry_set`, from the table the kernel starts with. -/
def registryOf (calls : List (CString × CString)) : Registry :=
  calls.foldl (fun r call => (registrySet r call.1.bytes call.2.bytes).2) Registry.empty

/-! ### The used slots are the first ones -/

/-- The table with these entries in its first slots. -/
def Registry.ofList (l : List RegistryEntry) : Registry := fun i => l[i.val]?

lemma Registry.ofList_nil : Registry.ofList [] = Registry.empty := by
  funext i
  rfl

open Registry

variable {l : List RegistryEntry} {key value : List UInt8}

lemma filterMap_getElem? (n : ℕ) (h : l.length ≤ n) :
    (List.range n).filterMap (fun i => l[i]?) = l := by
  induction l generalizing n with
  | nil => simp
  | cons e l ih =>
    obtain ⟨m, rfl⟩ : ∃ m, n = m + 1 := ⟨n - 1, by rw [length_cons] at h; omega⟩
    rw [range_succ_eq_map, filterMap_cons, filterMap_map]
    exact congrArg (e :: ·) (ih m (Nat.le_of_succ_le_succ h))

lemma entries_ofList (h : l.length ≤ registryMaxEntries) : registryEntries (ofList l) = l := by
  have hmap : registryEntries (ofList l) =
      ((List.finRange registryMaxEntries).map Fin.val).filterMap (fun i => l[i]?) := by
    rw [filterMap_map]
    rfl
  rw [hmap, map_coe_finRange_eq_range, filterMap_getElem? _ h]

lemma ofList_eq_some (h : ofList l i = some e) : e ∈ l := mem_of_getElem? h

/-- The strings of an entry as `registry_set` accepts them. -/
structure KeyValueSound (e : RegistryEntry) : Prop where
  key_ne : e.key ≠ []
  key_lt : e.key.length < registryKeySize
  key_nonzero : 0 ∉ e.key
  value_lt : e.value.length < registryValueSize
  value_nonzero : 0 ∉ e.value

structure RegistrySound (l : List RegistryEntry) : Prop where
  length_le : l.length ≤ registryMaxEntries
  keys : (l.map (·.key)).Nodup
  entry : ∀ e ∈ l, KeyValueSound e

lemma registrySound_nil : RegistrySound [] := ⟨Nat.zero_le _, nodup_nil, by simp⟩

lemma RegistrySound.append (h : RegistrySound l) (hroom : l.length < registryMaxEntries)
    (hnew : e.key ∉ l.map (·.key)) (he : KeyValueSound e) : RegistrySound (l ++ [e]) := by
  refine ⟨by simpa using hroom, ?_, fun x hx => ?_⟩
  · rw [map_append, map_singleton, ← concat_eq_append]
    exact h.keys.concat hnew
  · rcases mem_append.mp hx with hx | hx
    · exact h.entry x hx
    · rwa [mem_singleton.mp hx]

lemma RegistrySound.replace {i : ℕ} (h : RegistrySound l) (hi : l[i]? = some e)
    (he : KeyValueSound ⟨e.key, value⟩) : RegistrySound (l.set i ⟨e.key, value⟩) := by
  refine ⟨by rw [List.length_set]; exact h.length_le, ?_, fun x hx => ?_⟩
  · -- the key in the slot stays the same
    have hsame : (l.set i ⟨e.key, value⟩).map (·.key) = l.map (·.key) := by
      obtain ⟨hlt, rfl⟩ := List.getElem?_eq_some_iff.mp hi
      refine List.ext_getElem (by simp) fun j _ _ => ?_
      by_cases hj : i = j <;> simp [hj]
    rw [hsame]
    exact h.keys
  · rcases mem_or_eq_of_mem_set hx with hx | rfl
    · exact h.entry x hx
    · exact he

lemma copy_of_lt {n : ℕ} {s : List UInt8} (h : s.length < n) : registryCopy n s = s :=
  take_of_length_le (Nat.le_pred_of_lt h)

lemma find_ofList_none (hnew : key ∉ l.map (·.key)) : registryFind (ofList l) key = none := by
  refine find?_eq_none.mpr fun i _ => ?_
  cases he : ofList l i with
  | none => simp
  | some e =>
    intro hany
    refine hnew (mem_map.mpr ⟨e, ofList_eq_some he, ?_⟩)
    simpa using hany

lemma find_ofList_some (h : registryFind (ofList l) key = some i) :
    ∃ e, l[i.val]? = some e ∧ e.key = key := by
  have hany := find?_some h
  cases he : l[i.val]? with
  | none =>
    rw [ofList, he] at hany
    cases hany
  | some e =>
    rw [ofList, he] at hany
    exact ⟨e, rfl, by simpa using hany⟩

lemma notMem_of_find_none (hlen : l.length ≤ registryMaxEntries)
    (h : registryFind (ofList l) key = none) : key ∉ l.map (·.key) := by
  intro hmem
  obtain ⟨e, he, rfl⟩ := mem_map.mp hmem
  obtain ⟨i, hi, rfl⟩ := mem_iff_getElem.mp he
  have hnone := find?_eq_none.mp h ⟨i, hi.trans_le hlen⟩ (mem_finRange _)
  simp [ofList, hi] at hnone

/-- The first unused slot is the one behind the entries. -/
lemma findUnused_ofList (hroom : l.length < registryMaxEntries) :
    registryFindUnused (ofList l) = some ⟨l.length, hroom⟩ := by
  refine find?_eq_some_iff_getElem.mpr ⟨?_, l.length, by simpa using hroom, by simp, ?_⟩
  · simp [ofList]
  · intro j hj
    simp [ofList, hj]

section

variable (hkey : key ≠ []) (hk : key.length < registryKeySize)
  (hv : value.length < registryValueSize)
include hkey hk hv

/-- A new key goes to the first slot behind the used ones. -/
lemma registrySet_new (hroom : l.length < registryMaxEntries) (hnew : key ∉ l.map (·.key)) :
    registrySet (ofList l) key value = (registryOk, ofList (l ++ [⟨key, value⟩])) := by
  have hfits : ¬ (key.length ≥ registryKeySize ∨ value.length ≥ registryValueSize) := by omega
  rw [registrySet, if_neg hkey, if_neg hfits, find_ofList_none hnew, findUnused_ofList hroom]
  rw [copy_of_lt hk, copy_of_lt hv]
  refine congrArg (Prod.mk registryOk) (funext fun i => ?_)
  by_cases hi : i = ⟨l.length, hroom⟩
  · subst hi
    simp [ofList]
  have hne : i.val ≠ l.length := fun h => hi (Fin.ext h)
  rw [update_of_ne hi, ofList, ofList, getElem?_append]
  split_ifs with hlt
  · rfl
  · rw [getElem?_eq_none (by omega), getElem?_eq_none (by simp; omega)]

/-- A key that is there gets the new value. -/
lemma registrySet_found (hfind : registryFind (ofList l) key = some i) :
    registrySet (ofList l) key value = (registryOk, ofList (l.set i ⟨key, value⟩)) := by
  have hfits : ¬ (key.length ≥ registryKeySize ∨ value.length ≥ registryValueSize) := by omega
  obtain ⟨e, he, rfl⟩ := find_ofList_some hfind
  rw [registrySet, if_neg hkey, if_neg hfits, hfind]
  rw [copy_of_lt hv]
  refine congrArg (Prod.mk registryOk) (funext fun j => ?_)
  have hlt : i.val < l.length := (List.getElem?_eq_some_iff.mp he).1
  by_cases hj : j = i
  · subst hj
    rw [update_self, ofList, he, ofList, List.getElem?_set_self hlt]
    rfl
  · have hne : i.val ≠ j.val := fun h => hj (Fin.ext h.symm)
    rw [update_of_ne hj, ofList, ofList, getElem?_set_ne hne]

end

lemma findUnused_full (hfull : registryMaxEntries ≤ l.length) :
    registryFindUnused (ofList l) = none := by
  refine find?_eq_none.mpr fun i _ => ?_
  have hi : i.val < l.length := i.isLt.trans_le hfull
  simp [ofList, hi]

/-- A call of `registry_set` keeps the used slots in front and the table sound. -/
lemma RegistrySound.set (h : RegistrySound l) (hk0 : 0 ∉ key) (hv0 : 0 ∉ value) :
    ∃ l', RegistrySound l' ∧ (registrySet (ofList l) key value).2 = ofList l' := by
  by_cases hkey : key = []
  · exact ⟨l, h, by rw [registrySet, if_pos hkey]⟩
  by_cases hlong : key.length ≥ registryKeySize ∨ value.length ≥ registryValueSize
  · exact ⟨l, h, by rw [registrySet, if_neg hkey, if_pos hlong]⟩
  obtain ⟨hk, hv⟩ : key.length < registryKeySize ∧ value.length < registryValueSize := by omega
  cases hfind : registryFind (ofList l) key with
  | some i =>
    obtain ⟨e, he, rfl⟩ := find_ofList_some hfind
    exact ⟨l.set i ⟨e.key, value⟩, h.replace he ⟨hkey, hk, hk0, hv, hv0⟩,
      by rw [registrySet_found hkey hk hv hfind]⟩
  | none =>
    by_cases hroom : l.length < registryMaxEntries
    · have hnew := notMem_of_find_none h.length_le hfind
      exact ⟨l ++ [⟨key, value⟩], h.append hroom hnew ⟨hkey, hk, hk0, hv, hv0⟩,
        by rw [registrySet_new hkey hk hv hroom hnew]⟩
    · refine ⟨l, h, ?_⟩
      rw [registrySet, if_neg hkey, if_neg hlong, hfind]
      rw [findUnused_full (not_lt.mp hroom)]

/-- Every registry that calls of `registry_set` can make. -/
theorem registryOf_sound (calls : List (CString × CString)) :
    ∃ l, RegistrySound l ∧ registryOf calls = ofList l := by
  have hrun : ∀ l, RegistrySound l → ∃ l', RegistrySound l' ∧
      calls.foldl (fun r call => (registrySet r call.1.bytes call.2.bytes).2) (ofList l) =
        ofList l' := by
    induction calls with
    | nil => exact fun l h => ⟨l, h, rfl⟩
    | cons call calls ih =>
      intro l h
      obtain ⟨l', h', hset⟩ := h.set (fun hz => call.1.nonzero 0 hz rfl)
        fun hz => call.2.nonzero 0 hz rfl
      rw [foldl_cons, hset]
      exact ih l' h'
  obtain ⟨l, h, hl⟩ := hrun [] registrySound_nil
  rw [ofList_nil] at hl
  exact ⟨l, h, hl⟩

end Shell
