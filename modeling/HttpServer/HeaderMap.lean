import HttpServer.Bytes

/-!
# The header tables

`std::unordered_map<std::string, std::string>` is modelled by its entries in
insertion order, with no key stored twice.  Lookups do not depend on that
order.  Iteration does: the standard library visits every entry once, in an
order it does not specify, so a traversal takes an `IterationOrder`, which is
any rearrangement of the entries.
-/

namespace HttpServer

/-- A header table: entries with distinct names. -/
structure HeaderMap where
  entries : List (Bytes × Bytes)
  nodup : (entries.map Prod.fst).Nodup
deriving DecidableEq

/-- The order in which a traversal of a table visits the entries. -/
structure IterationOrder where
  visit : List (Bytes × Bytes) → List (Bytes × Bytes)
  perm : ∀ entries, (visit entries).Perm entries

/-- The traversal in insertion order. -/
def IterationOrder.insertion : IterationOrder where
  visit := id
  perm := fun entries => List.Perm.refl entries

namespace HeaderMap

def empty : HeaderMap where
  entries := []
  nodup := by simp

/-- `find`: the value stored under a name. -/
def find (m : HeaderMap) (name : Bytes) : Option Bytes :=
  m.entries.lookup name

theorem find_eq_none_iff
    (m : HeaderMap)
    (name : Bytes) :
    m.find name = none ↔ name ∉ m.entries.map Prod.fst := by
  unfold find
  rw [List.lookup_eq_none_iff]
  constructor
  · intro h hmem
    obtain ⟨e, he, rfl⟩ := List.mem_map.mp hmem
    simpa using h e he
  · intro h e he
    have hne : name ≠ e.1 := fun heq => h (heq ▸ List.mem_map_of_mem he)
    simpa using hne

/-- `emplace`: add an entry unless its name is taken. -/
def emplace (m : HeaderMap) (name value : Bytes) : HeaderMap :=
  if h : m.find name = none then
    { entries := m.entries ++ [(name, value)]
      nodup := by
        have hnew := (m.find_eq_none_iff name).1 h
        rw [List.map_append, List.map_singleton]
        exact m.nodup.append (List.nodup_singleton _) (by simpa using hnew) }
  else m

/-- Change the value stored under a name. -/
def modify (m : HeaderMap) (name : Bytes) (f : Bytes → Bytes) : HeaderMap where
  entries := m.entries.map (fun e => if e.1 = name then (e.1, f e.2) else e)
  nodup := by
    have hkeys :
        (m.entries.map (fun e => if e.1 = name then (e.1, f e.2) else e)).map Prod.fst =
          m.entries.map Prod.fst := by
      rw [List.map_map]
      apply List.map_congr_left
      intro e _
      by_cases h : e.1 = name <;> simp [h]
    rw [hkeys]
    exact m.nodup

/-- `m[name] = value`. -/
def assign (m : HeaderMap) (name value : Bytes) : HeaderMap :=
  if m.find name = none then m.emplace name value
  else m.modify name (fun _ => value)

theorem entries_emplace
    {m : HeaderMap}
    {name : Bytes}
    (value : Bytes)
    (h : m.find name = none) :
    (m.emplace name value).entries = m.entries ++ [(name, value)] := by
  simp [emplace, h]

theorem find_emplace
    {m : HeaderMap}
    {name : Bytes}
    (value key : Bytes)
    (h : m.find name = none) :
    (m.emplace name value).find key =
      if key = name then some value else m.find key := by
  unfold find at h ⊢
  rw [entries_emplace value h, List.lookup_append]
  by_cases hk : key = name
  · subst hk
    simp [h]
  · have hb : (key == name) = false := by simpa using hk
    simp [hk, hb, List.lookup_cons]

theorem find_modify
    (m : HeaderMap)
    (name : Bytes)
    (f : Bytes → Bytes)
    (key : Bytes) :
    (m.modify name f).find key =
      if key = name then (m.find key).map f else m.find key := by
  unfold find modify
  dsimp only
  induction m.entries with
  | nil =>
      simp
  | cons e es ih =>
      obtain ⟨k, v⟩ := e
      by_cases hk : key = k
      · subst hk
        by_cases hn : key = name <;> simp [hn]
      · have hb : (key == k) = false := by simpa using hk
        by_cases hn : k = name
        · simp [hn, List.lookup_cons, hn ▸ hb, hn ▸ hk, ih]
        · simp [hn, List.lookup_cons, hb, ih]

theorem find_assign
    (m : HeaderMap)
    (name value key : Bytes) :
    (m.assign name value).find key =
      if key = name then some value else m.find key := by
  unfold assign
  by_cases h : m.find name = none
  · rw [if_pos h, find_emplace value key h]
  · rw [if_neg h, find_modify]
    by_cases hk : key = name
    · subst hk
      obtain ⟨old, hold⟩ := Option.ne_none_iff_exists'.mp h
      simp [hold]
    · simp [hk]

/-- Assigning brings at most the assigned entry into the table. -/
theorem mem_entries_assign
    {m : HeaderMap}
    {name value : Bytes}
    {e : Bytes × Bytes}
    (h : e ∈ (m.assign name value).entries) :
    e ∈ m.entries ∨ e = (name, value) := by
  unfold assign at h
  split_ifs at h with hfind
  · rw [entries_emplace value hfind] at h
    simpa using h
  · simp only [modify, List.mem_map] at h
    obtain ⟨e', he', rfl⟩ := h
    split_ifs with heq
    · exact Or.inr (by rw [heq])
    · exact Or.inl he'

end HeaderMap

end HttpServer
