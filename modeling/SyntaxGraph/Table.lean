/-!
# Ordered tables

A table is a list of names with entries, in the order in which the names were first set.
-/

namespace SyntaxGraph.Table

/-- The table in which `name` has the given entry: at the place of the old one, or else at the
end. -/
def assign (name : String) (entry : α) : List (String × α) → List (String × α)
  | [] => [(name, entry)]
  | (n, old) :: rest => if n = name then (n, entry) :: rest else (n, old) :: assign name entry rest

theorem lookup_assign (name : String) (entry : α) (t : List (String × α)) (key : String) :
    (assign name entry t).lookup key = if key = name then some entry else t.lookup key := by
  induction t with
  | nil =>
    by_cases h : key = name
    · simp [assign, h]
    · have : (key == name) = false := by simpa using h
      simp [assign, h, List.lookup_cons, this]
  | cons e t ih =>
    obtain ⟨n, old⟩ := e
    by_cases hn : n = name <;> by_cases h : key = n
    · simp [assign, hn, h]
    · have : (key == n) = false := by simpa using h
      simp [assign, ← hn, h, List.lookup_cons, this]
    · simp [assign, hn, h]
    · have : (key == n) = false := by simpa using h
      simp [assign, hn, List.lookup_cons, this, ih]

theorem mem_of_lookup [BEq κ] [LawfulBEq κ] {t : List (κ × α)} {key : κ} {entry : α}
    (h : t.lookup key = some entry) : (key, entry) ∈ t := by
  obtain ⟨before, after, rfl, -⟩ := List.lookup_eq_some_iff.1 h
  simp

theorem lookup_of_notMem [BEq κ] [LawfulBEq κ] {t : List (κ × α)} {key : κ}
    (h : key ∉ t.map (·.1)) : t.lookup key = none := by
  rw [List.lookup_eq_none_iff]
  intro e he
  have hne : key ≠ e.1 := fun hkey => h (hkey ▸ List.mem_map_of_mem he)
  simpa using hne

/-- Where no key comes twice, every entry is found under its key. -/
theorem lookup_of_mem [BEq κ] [LawfulBEq κ] {t : List (κ × α)} (hkeys : (t.map (·.1)).Nodup)
    {key : κ} {entry : α} (h : (key, entry) ∈ t) : t.lookup key = some entry := by
  obtain ⟨before, after, rfl⟩ := List.append_of_mem h
  refine List.lookup_eq_some_iff.2 ⟨before, after, rfl, fun e he => ?_⟩
  rw [List.map_append, List.nodup_append] at hkeys
  have hne := hkeys.2.2 e.1 (List.mem_map_of_mem he) key (by simp)
  simpa using hne.symm

end SyntaxGraph.Table
