import ChainMapping.Ordered

/-!
# Looking up in tables

A table whose keys are distinct holds an entry exactly if looking up its key gives its value.  The
table that a list of settings leaves behind has distinct keys, and as a list of settings it leaves
itself behind.
-/

namespace ChainMapping

namespace Ordered

variable {α : Type}

theorem mem_of_lookup {κ : Type} [BEq κ] [LawfulBEq κ] {key : κ} {value : α} {table : List (κ × α)}
    (h : table.lookup key = some value) : (key, value) ∈ table := by
  obtain ⟨before, after, rfl, -⟩ := List.lookup_eq_some_iff.mp h
  simp

theorem put_of_lookup_eq_none {key : String} {value : α} {table : List (String × α)}
    (h : table.lookup key = none) : put key value table = table ++ [(key, value)] := by
  induction table with
  | nil => rfl
  | cons entry rest ih =>
    obtain ⟨other, kept⟩ := entry
    rw [List.lookup_cons] at h
    by_cases hkey : key = other
    · simp [hkey] at h
    · have hrest : rest.lookup key = none := by simpa [beq_eq_false_iff_ne.mpr hkey] using h
      rw [put, if_neg (Ne.symm hkey), ih hrest, List.cons_append]

theorem lookup_eq_none_iff {key : String} {table : List (String × α)} :
    table.lookup key = none ↔ key ∉ keys table := by
  induction table with
  | nil => simp [keys]
  | cons entry rest ih =>
    obtain ⟨other, kept⟩ := entry
    by_cases hkey : key = other
    · simp [hkey, keys]
    · rw [List.lookup_cons, beq_eq_false_iff_ne.mpr hkey]
      simpa [keys, hkey] using ih

theorem lookup_eq_some_iff {key : String} {value : α} {table : List (String × α)}
    (hnodup : (keys table).Nodup) : table.lookup key = some value ↔ (key, value) ∈ table := by
  induction table with
  | nil => simp
  | cons entry rest ih =>
    obtain ⟨other, kept⟩ := entry
    have hrest : other ∉ keys rest ∧ (keys rest).Nodup := by simpa [keys] using hnodup
    rw [List.lookup_cons]
    by_cases hkey : key = other
    · subst hkey
      have habsent : (key, value) ∉ rest := fun h =>
        hrest.1 (List.mem_map.mpr ⟨(key, value), h, rfl⟩)
      simp [habsent, eq_comm]
    · rw [beq_eq_false_iff_ne.mpr hkey]
      simpa [hkey] using ih hrest.2

theorem lookup_append_of_some {key : String} {value : α} {table more : List (String × α)}
    (h : table.lookup key = some value) : (table ++ more).lookup key = some value := by
  rw [List.lookup_append, h, Option.some_or]

theorem mem_keys_put {key other : String} {value : α} {table : List (String × α)} :
    other ∈ keys (put key value table) ↔ other = key ∨ other ∈ keys table := by
  induction table with
  | nil => simp [put, keys]
  | cons entry rest ih =>
    obtain ⟨name, kept⟩ := entry
    rw [put]
    split
    next hname => simp [keys, hname]
    next hname =>
      have hrest : other ∈ (put key value rest).map Prod.fst ↔ other = key ∨ other ∈ keys rest := ih
      simp only [keys, List.map_cons, List.mem_cons, hrest]
      exact or_left_comm

theorem nodup_keys_put {key : String} {value : α} {table : List (String × α)}
    (h : (keys table).Nodup) : (keys (put key value table)).Nodup := by
  induction table with
  | nil => simp [put, keys]
  | cons entry rest ih =>
    obtain ⟨name, kept⟩ := entry
    obtain ⟨hname, hrest⟩ := List.nodup_cons.mp h
    rw [put]
    split
    next heq => exact List.nodup_cons.mpr ⟨heq ▸ hname, hrest⟩
    next hne =>
      refine List.nodup_cons.mpr ⟨fun hmem => ?_, ih hrest⟩
      rcases mem_keys_put.mp hmem with heq | hmem
      · exact hne heq
      · exact hname hmem

theorem nodup_keys_foldl_put {table : List (String × α)} (h : (keys table).Nodup)
    (settings : List (String × α)) :
    (keys (settings.foldl (fun table (key, value) => put key value table) table)).Nodup := by
  induction settings generalizing table with
  | nil => exact h
  | cons setting rest ih => exact ih (nodup_keys_put h)

theorem foldl_put_of_nodup {table settings : List (String × α)}
    (h : (keys (table ++ settings)).Nodup) :
    settings.foldl (fun table (key, value) => put key value table) table = table ++ settings := by
  induction settings generalizing table with
  | nil => simp
  | cons setting rest ih =>
    obtain ⟨key, value⟩ := setting
    have hnew : key ∉ keys table := by
      have happend : (keys table ++ key :: keys rest).Nodup := by simpa [keys] using h
      intro hmem
      exact (List.nodup_append.mp happend).2.2 key hmem key List.mem_cons_self rfl
    have hput : put key value table = table ++ [(key, value)] :=
      put_of_lookup_eq_none (lookup_eq_none_iff.mpr hnew)
    rw [List.append_cons, ← ih (by simpa using h), List.foldl_cons]
    simp only [hput]

theorem nodup_keys_ofList (settings : List (String × α)) : (keys (ofList settings)).Nodup :=
  @nodup_keys_foldl_put α [] List.nodup_nil settings

/-- The table that settings leave behind leaves itself behind. -/
theorem ofList_ofList (settings : List (String × α)) :
    ofList (ofList settings) = ofList settings :=
  @foldl_put_of_nodup α [] (ofList settings) (nodup_keys_ofList settings)

end Ordered

end ChainMapping
