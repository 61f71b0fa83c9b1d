import RowTyping.Infer.Scopes

namespace RowTyping.Scopes

variable {α : Type}

@[simp]
theorem map_map (f g : α → α) (s : Scopes α) : (s.map f).map g = s.map (g ∘ f) := by
  simp [map]

@[simp]
theorem map_id (s : Scopes α) : s.map (fun a => a) = s := by
  simp [map]

theorem map_append (f : α → α) (s : Scopes α) (as : List α) : (s.append as).map f = (s.map f).append (as.map f) := by
  obtain ⟨root, nested⟩ := s
  cases nested <;> simp [append, map]

@[simp]
theorem append_append (s : Scopes α) (as bs : List α) : (s.append as).append bs = s.append (as ++ bs) := by
  obtain ⟨root, nested⟩ := s
  cases nested <;> simp [append]

@[simp]
theorem append_nil (s : Scopes α) : s.append [] = s := by
  obtain ⟨root, nested⟩ := s
  cases nested <;> simp [append]

theorem length_nested_append (s : Scopes α) (as : List α) : (s.append as).nested.length = s.nested.length := by
  obtain ⟨root, nested⟩ := s
  cases nested <;> simp [append]

theorem map_pushScope (f : α → α) (s : Scopes α) : s.pushScope.map f = (s.map f).pushScope := rfl

theorem takeScope_map (f : α → α) (s : Scopes α) : (s.map f).takeScope = (s.takeScope.1.map f, s.takeScope.2.map f) := by
  obtain ⟨root, nested⟩ := s
  cases nested <;> rfl

theorem takeScope_append_pushScope (s : Scopes α) (as : List α) : (s.pushScope.append as).takeScope = (as, s) := rfl

theorem mem_takeScope {s : Scopes α} {a : α} : a ∈ s.toList ↔ a ∈ s.takeScope.1 ∨ a ∈ s.takeScope.2.toList := by
  obtain ⟨root, nested⟩ := s
  cases nested with
  | nil => simp [toList, takeScope]
  | cons inner outer =>
      simp only [toList, takeScope, List.mem_append, List.mem_flatten, List.mem_reverse]
      grind

theorem mem_toList_of_innermost {s : Scopes α} {a : α} (h : a ∈ s.innermost) : a ∈ s.toList := by
  refine mem_takeScope.mpr (.inl ?_)
  obtain ⟨root, nested⟩ := s
  cases nested <;> exact h

end RowTyping.Scopes
