import Mathlib.Data.List.Induction
import Mathlib.Data.List.Nodup

/-!
# First occurrences

A list that takes an item at its end unless it has the item.  Items that come one
after the other leave each of them at its first occurrence, which is the order of
`eraseDups`; and of a list that has repetitions already, `eraseDups` sees no
difference between taking an item in this way and appending it.
-/

namespace ClassSelection

variable {α : Type} [BEq α]

def addNew (items : List α) (item : α) : List α :=
  if items.contains item then items else items ++ [item]

variable [LawfulBEq α] {items : List α} {item other : α}

theorem addNew_of_mem (h : item ∈ items) : addNew items item = items :=
  if_pos (List.contains_iff_mem.2 h)

theorem addNew_of_notMem (h : item ∉ items) : addNew items item = items ++ [item] :=
  if_neg fun hcontains => h (List.contains_iff_mem.1 hcontains)

theorem mem_addNew : other ∈ addNew items item ↔ other ∈ items ∨ other = item := by
  by_cases h : item ∈ items
  · rw [addNew_of_mem h]
    exact ⟨Or.inl, fun hother => hother.elim id fun heq => heq ▸ h⟩
  · rw [addNew_of_notMem h, List.mem_append, List.mem_singleton]

theorem nodup_addNew (hitems : items.Nodup) (item : α) : (addNew items item).Nodup := by
  by_cases h : item ∈ items
  · rwa [addNew_of_mem h]
  · rw [addNew_of_notMem h]
    exact hitems.append (List.nodup_singleton item) (by simpa using h)

/-! ## Items that come one after the other -/

theorem eraseDups_append_singleton (items : List α) (item : α) :
    (items ++ [item]).eraseDups = addNew items.eraseDups item := by
  rw [List.eraseDups_append]
  by_cases h : item ∈ items
  · rw [addNew_of_mem (List.mem_eraseDups.2 h)]
    simp [List.removeAll, h]
  · rw [addNew_of_notMem fun hitem => h (List.mem_eraseDups.1 hitem)]
    simp [List.removeAll, List.eraseDups_cons, h]

theorem foldl_addNew_nil (items : List α) : items.foldl addNew [] = items.eraseDups := by
  induction items using List.reverseRecOn with
  | nil => rfl
  | append_singleton items item ih =>
      rw [List.foldl_append, ih, List.foldl_cons, List.foldl_nil, eraseDups_append_singleton]

theorem nodup_eraseDups (items : List α) : items.eraseDups.Nodup := by
  induction items using List.reverseRecOn with
  | nil => exact List.nodup_nil
  | append_singleton items item ih =>
      rw [eraseDups_append_singleton]
      exact nodup_addNew ih item

theorem eraseDups_eq_self (h : items.Nodup) : items.eraseDups = items := by
  induction items using List.reverseRecOn with
  | nil => rfl
  | append_singleton items item ih =>
      obtain ⟨hitems, -, hdisjoint⟩ := List.nodup_append'.1 h
      have hnew : item ∉ items := fun hitem => hdisjoint hitem List.mem_cons_self
      rw [eraseDups_append_singleton, ih hitems, addNew_of_notMem hnew]

/-! ## Lists with repetitions -/

/-- Behind two lists with the same first occurrences, what is appended is new to both or to
neither. -/
theorem eraseDups_append_congr {others : List α} (h : items.eraseDups = others.eraseDups)
    (more : List α) : (items ++ more).eraseDups = (others ++ more).eraseDups := by
  have hmem (item : α) : item ∈ items ↔ item ∈ others := by
    rw [← List.mem_eraseDups, h, List.mem_eraseDups]
  have hremove : more.removeAll items = more.removeAll others := by
    simp only [List.removeAll, List.elem_eq_contains, List.contains_eq_mem, hmem]
  rw [List.eraseDups_append, List.eraseDups_append, h, hremove]

theorem eraseDups_addNew (items : List α) (item : α) :
    (addNew items item).eraseDups = (items ++ [item]).eraseDups := by
  by_cases h : item ∈ items
  · rw [eraseDups_append_singleton, addNew_of_mem h, addNew_of_mem (List.mem_eraseDups.2 h)]
  · rw [addNew_of_notMem h]

theorem eraseDups_foldl_addNew (items more : List α) :
    (more.foldl addNew items).eraseDups = (items ++ more).eraseDups := by
  induction more generalizing items with
  | nil => rw [List.foldl_nil, List.append_nil]
  | cons item more ih =>
      rw [List.foldl_cons, ih, eraseDups_append_congr (eraseDups_addNew items item),
        List.append_assoc, List.singleton_append]

end ClassSelection
