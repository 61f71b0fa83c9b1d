import RowTyping.Ty.Vars

namespace RowTyping

theorem OrderedMap.keys_insert {κ α : Type} [Ord κ] [Std.LawfulEqOrd κ] (m : OrderedMap κ α) (k : κ) (v : α) :
    (m.insert k v).keys = OrderedSet.insert m.keys k := by
  induction m with
  | nil => rfl
  | cons e rest ih =>
      obtain ⟨k', v'⟩ := e
      simp only [insert, keys, List.map_cons, OrderedSet.insert] at ih ⊢
      cases hcompare : compare k k' with
      | lt => rfl
      | eq => rw [Std.LawfulEqCmp.compare_eq_iff_eq.mp hcompare]; rfl
      | gt => exact congrArg (k' :: ·) ih

namespace Ty

structure Traversal {β : Type} (step : β → Occurrence → β) where
  ty : Ty → β → β
  all : List Ty → β → β
  effects : Effects → β → β
  row : Row → β → β
  fields : List (Label × Ty) → β → β
  ty_var : ∀ v b, ty (.var v) b = step b (.type v) := by intros; rfl
  ty_con : ∀ name b, ty (.con name) b = b := by intros; rfl
  ty_app : ∀ h as b, ty (.app h as) b = all as (ty h b) := by intros; rfl
  ty_list : ∀ a b, ty (.list a) b = ty a b := by intros; rfl
  ty_tuple : ∀ as b, ty (.tuple as) b = all as b := by intros; rfl
  ty_fn : ∀ ps e r b, ty (.fn ps e r) b = ty r (effects e (all ps b)) := by intros; rfl
  ty_record : ∀ r b, ty (.record r) b = row r b := by intros; rfl
  all_nil : ∀ b, all [] b = b := by intros; rfl
  all_cons : ∀ t ts b, all (t :: ts) b = all ts (ty t b) := by intros; rfl
  effects_none : ∀ b, effects none b = b := by intros; rfl
  effects_some : ∀ r b, effects (some r) b = row r b := by intros; rfl
  row_closed : ∀ k fs b, row ⟨k, fs, none⟩ b = fields fs b := by intros; rfl
  row_opened : ∀ k fs r b, row ⟨k, fs, some r⟩ b = step (fields fs b) (.tail r k) := by intros; rfl
  fields_nil : ∀ b, fields [] b = b := by intros; rfl
  fields_cons : ∀ l t fs b, fields ((l, t) :: fs) b = fields fs (ty t b) := by intros; rfl

namespace Traversal

variable {β : Type} {step : β → Occurrence → β} (T : Traversal step)

mutual

theorem ty_eq : ∀ (t : Ty) (b : β), T.ty t b = t.occurrences.foldl step b
  | .var v, b => T.ty_var v b
  | .con name, b => T.ty_con name b
  | .app h as, b => by rw [T.ty_app, occurrences, List.foldl_append, ty_eq h, all_eq as]
  | .list a, b => by rw [T.ty_list, occurrences, ty_eq a]
  | .tuple as, b => by rw [T.ty_tuple, occurrences, all_eq as]
  | .fn ps e r, b => by
      rw [T.ty_fn, occurrences, List.foldl_append, List.foldl_append, all_eq ps, effects_eq e, ty_eq r]
  | .record r, b => by rw [T.ty_record, occurrences, row_eq r]

theorem all_eq : ∀ (ts : List Ty) (b : β), T.all ts b = (occurrencesAll ts).foldl step b
  | [], b => T.all_nil b
  | t :: ts, b => by rw [T.all_cons, occurrencesAll, List.foldl_append, ty_eq t, all_eq ts]

theorem effects_eq : ∀ (e : Option Row) (b : β), T.effects e b = (occurrencesEffects e).foldl step b
  | none, b => T.effects_none b
  | some r, b => by rw [T.effects_some, occurrencesEffects, row_eq r]

theorem row_eq : ∀ (r : Row) (b : β), T.row r b = (occurrencesRow r).foldl step b
  | ⟨k, fs, none⟩, b => by
      rw [T.row_closed, occurrencesRow, List.foldl_append, fields_eq fs]
      rfl
  | ⟨k, fs, some r⟩, b => by
      rw [T.row_opened, occurrencesRow, List.foldl_append, fields_eq fs]
      rfl

theorem fields_eq : ∀ (fs : List (Label × Ty)) (b : β), T.fields fs b = (occurrencesFields fs).foldl step b
  | [], b => T.fields_nil b
  | (l, t) :: fs, b => by rw [T.fields_cons, occurrencesFields, List.foldl_append, ty_eq t, fields_eq fs]

end

end Traversal

end Ty

namespace Occurrence

def addType (vars : OrderedSet TypeVarId) : Occurrence → OrderedSet TypeVarId
  | .type v => vars.insert v.id
  | .tail _ _ => vars

def addTail (vars : OrderedSet RowVarId) : Occurrence → OrderedSet RowVarId
  | .type _ => vars
  | .tail r _ => vars.insert r

def addKind (kinds : Ty.VarKinds) : Occurrence → Ty.VarKinds
  | .type v => { kinds with types := kinds.types.insert v.id v.kind }
  | .tail r k => { kinds with rows := kinds.rows.insert r k }

def isTail (r : RowVarId) (o : Occurrence) : Bool :=
  o.tail?.any fun tail => tail.1 == r

def count (r : RowVarId) (n : Nat) (o : Occurrence) : Nat :=
  n + if o.isTail r then 1 else 0

theorem foldl_addType (os : List Occurrence) (vars : OrderedSet TypeVarId) :
    os.foldl addType vars = vars.union (os.filterMap fun o => o.type?.map TypeVar.id) := by
  induction os generalizing vars with
  | nil => rfl
  | cons o os ih => cases o <;> exact ih _

theorem foldl_addTail (os : List Occurrence) (vars : OrderedSet RowVarId) :
    os.foldl addTail vars = vars.union (os.filterMap fun o => o.tail?.map Prod.fst) := by
  induction os generalizing vars with
  | nil => rfl
  | cons o os ih => cases o <;> exact ih _

theorem foldl_addKind (os : List Occurrence) (kinds : Ty.VarKinds) :
    os.foldl addKind kinds =
      ⟨kinds.types.merge (os.filterMap fun o => o.type?.map fun v => (v.id, v.kind)), kinds.rows.merge (os.filterMap tail?)⟩ := by
  induction os generalizing kinds with
  | nil => rfl
  | cons o os ih => cases o <;> exact ih _

theorem foldl_count (r : RowVarId) (os : List Occurrence) (n : Nat) : os.foldl (count r) n = n + os.countP (isTail r) := by
  induction os generalizing n with
  | nil => rfl
  | cons o os ih => rw [List.foldl_cons, ih, List.countP_cons, count, Nat.add_assoc, Nat.add_comm (os.countP _)]

-- The step that notes a kind is the step that collects the variable, seen from the keys.
theorem keys_types_foldl (os : List Occurrence) (kinds : Ty.VarKinds) :
    (os.foldl addKind kinds).types.keys = os.foldl addType kinds.types.keys := by
  refine (List.foldl_hom (fun kinds : Ty.VarKinds => kinds.types.keys) fun kinds o => ?_).symm
  cases o with
  | type v => exact (OrderedMap.keys_insert kinds.types v.id v.kind).symm
  | tail r k => rfl

theorem keys_rows_foldl (os : List Occurrence) (kinds : Ty.VarKinds) :
    (os.foldl addKind kinds).rows.keys = os.foldl addTail kinds.rows.keys := by
  refine (List.foldl_hom (fun kinds : Ty.VarKinds => kinds.rows.keys) fun kinds o => ?_).symm
  cases o with
  | type v => rfl
  | tail r k => exact (OrderedMap.keys_insert kinds.rows r k).symm

end Occurrence

namespace Ty

def collectingTypeVars : Traversal Occurrence.addType where
  ty := collectTypeVars
  all := collectTypeVarsAll
  effects := collectTypeVarsEffects
  row := collectTypeVarsRow
  fields := collectTypeVarsFields

def collectingRowVars : Traversal Occurrence.addTail where
  ty := collectRowVars
  all := collectRowVarsAll
  effects := collectRowVarsEffects
  row := collectRowVarsRow
  fields := collectRowVarsFields

def collectingKinds : Traversal Occurrence.addKind where
  ty := collectKinds
  all := collectKindsAll
  effects := collectKindsEffects
  row := collectKindsRow
  fields := collectKindsFields

def counting (r : RowVarId) : Traversal (Occurrence.count r) where
  ty t n := n + t.countRowVar r
  all ts n := n + countRowVarAll ts r
  effects e n := n + countRowVarEffects e r
  row row n := n + countRowVarRow row r
  fields fs n := n + countRowVarFields fs r
  ty_app := by intros; simp only [countRowVar]; omega
  ty_fn := by intros; simp only [countRowVar]; omega
  all_cons := by intros; simp only [countRowVarAll]; omega
  row_closed := by intros; simp [countRowVarRow]
  row_opened := by intros; simp [countRowVarRow, Occurrence.count, Occurrence.isTail, Occurrence.tail?]; omega
  fields_cons := by intros; simp only [countRowVarFields]; omega

variable (t : Ty)

theorem typeVars_eq : t.typeVars = .ofList (t.occurrences.filterMap fun o => o.type?.map TypeVar.id) :=
  (collectingTypeVars.ty_eq t []).trans (Occurrence.foldl_addType _ _)

theorem rowVars_eq : t.rowVars = .ofList (t.occurrences.filterMap fun o => o.tail?.map Prod.fst) :=
  (collectingRowVars.ty_eq t []).trans (Occurrence.foldl_addTail _ _)

theorem collectKinds_eq : t.collectKinds ⟨[], []⟩ = t.occurrences.foldl Occurrence.addKind ⟨[], []⟩ :=
  collectingKinds.ty_eq t _

theorem typeVarKinds_eq : t.typeVarKinds = .ofList (t.occurrences.filterMap fun o => o.type?.map fun v => (v.id, v.kind)) := by
  rw [typeVarKinds, collectKinds_eq, Occurrence.foldl_addKind, OrderedMap.ofList]

theorem rowVarKinds_eq : t.rowVarKinds = .ofList (t.occurrences.filterMap Occurrence.tail?) := by
  rw [rowVarKinds, collectKinds_eq, Occurrence.foldl_addKind, OrderedMap.ofList]

theorem countRowVar_eq (r : RowVarId) : t.countRowVar r = t.occurrences.countP (Occurrence.isTail r) := by
  have hcount : 0 + t.countRowVar r = 0 + _ := ((counting r).ty_eq t 0).trans (Occurrence.foldl_count r _ _)
  exact Nat.add_left_cancel hcount

theorem keys_typeVarKinds : t.typeVarKinds.keys = t.typeVars := by
  rw [typeVarKinds, collectKinds_eq, Occurrence.keys_types_foldl]
  exact (collectingTypeVars.ty_eq t []).symm

theorem keys_rowVarKinds : t.rowVarKinds.keys = t.rowVars := by
  rw [rowVarKinds, collectKinds_eq, Occurrence.keys_rows_foldl]
  exact (collectingRowVars.ty_eq t []).symm

end Ty

namespace Row

variable (r : Row)

theorem typeVars_eq : r.typeVars = .ofList (r.occurrences.filterMap fun o => o.type?.map TypeVar.id) :=
  (Ty.record r).typeVars_eq

theorem rowVars_eq : r.rowVars = .ofList (r.occurrences.filterMap fun o => o.tail?.map Prod.fst) :=
  (Ty.record r).rowVars_eq

end Row

end RowTyping
