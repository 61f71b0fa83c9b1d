import RowTyping.Checker
import RowTyping.Proofs.Inference.Closing
import RowTyping.Proofs.Inference.Patterns

namespace RowTyping

def Scheme.Closed (scheme : Scheme) : Prop :=
  ∀ s : Substitution, (s.applyScheme scheme).freeTypeVars = [] ∧ (s.applyScheme scheme).freeRowVars = []

namespace Env

variable {x : String} {k k' : Scheme} {env env' : Env}

def Twins (x : String) (k k' : Scheme) (e e' : String × Scheme) : Prop :=
  e' = e ∨ e = (x, k) ∧ e' = (x, k')

structure Rebinds (x : String) (k k' : Scheme) (env env' : Env) : Prop where
  globals : List.Forall₂ (Twins x k k') env.globals env'.globals
  locals : List.Forall₂ (List.Forall₂ (Twins x k k')) env.locals env'.locals

section Scopes

variable {m m' : OrderedMap String Scheme}

theorem twins_refl (m : OrderedMap String Scheme) : List.Forall₂ (Twins x k k') m m :=
  List.forall₂_same.mpr fun _ _ => .inl rfl

theorem Twins.key {e e' : String × Scheme} (h : Twins x k k' e e') : e'.1 = e.1 := by
  rcases h with rfl | ⟨rfl, rfl⟩ <;> rfl

theorem twins_insert (h : List.Forall₂ (Twins x k k') m m') {y : String} {s s' : Scheme} (he : Twins x k k' (y, s) (y, s')) :
    List.Forall₂ (Twins x k k') (m.insert y s) (m'.insert y s') := by
  induction h with
  | nil => exact .cons he .nil
  | @cons f f' m m' hf hm ih =>
      obtain ⟨z, t⟩ := f
      obtain ⟨z', t'⟩ := f'
      obtain rfl : z' = z := hf.key
      rw [OrderedMap.insert, OrderedMap.insert]
      split
      · exact .cons he (.cons hf hm)
      · exact .cons he hm
      · exact .cons hf ih

theorem twins_find? (h : List.Forall₂ (Twins x k k') m m') {y : String} (hy : y ≠ x) : m'.find? y = m.find? y := by
  induction h with
  | nil => rfl
  | cons hf _ ih =>
      rw [OrderedMap.find?_cons, OrderedMap.find?_cons, ih]
      rcases hf with rfl | ⟨rfl, rfl⟩
      · rfl
      · rw [if_neg hy, if_neg hy]

theorem twins_flatMap {β : Type} {f : Scheme → List β} (hk : f k = []) (hk' : f k' = []) (h : List.Forall₂ (Twins x k k') m m') :
    m'.values.flatMap f = m.values.flatMap f := by
  induction h with
  | nil => rfl
  | @cons e e' m m' he _ ih =>
      have hhead : f e'.2 = f e.2 := by
        rcases he with rfl | ⟨rfl, rfl⟩
        · rfl
        · exact hk'.trans hk.symm
      exact congrArg₂ (· ++ ·) hhead ih

end Scopes

namespace Rebinds

theorem refl (env : Env) : Rebinds x k k' env env :=
  ⟨twins_refl _, List.forall₂_same.mpr fun m _ => twins_refl m⟩

theorem bind (h : Rebinds x k k' env env') {y : String} {s s' : Scheme} (he : Twins x k k' (y, s) (y, s')) :
    Rebinds x k k' (env.bind y s) (env'.bind y s') := by
  obtain ⟨globals, locals⟩ := env
  obtain ⟨globals', locals'⟩ := env'
  obtain ⟨hglobals, hlocals⟩ := h
  cases hlocals with
  | nil => exact ⟨twins_insert hglobals he, .nil⟩
  | cons hinner houter => exact ⟨hglobals, .cons (twins_insert hinner he) houter⟩

theorem bindAll (h : Rebinds x k k' env env') (bs : List (String × Scheme)) : Rebinds x k k' (env.bindAll bs) (env'.bindAll bs) := by
  induction bs generalizing env env' with
  | nil => exact h
  | cons b bs ih => exact ih (h.bind (.inl rfl))

theorem lookupLocal (h : Rebinds x k k' env env') {y : String} (hy : y ≠ x) : env'.lookupLocal y = env.lookupLocal y := by
  have hlocals := h.locals
  rw [Env.lookupLocal, Env.lookupLocal]
  generalize env.locals = locals, env'.locals = locals' at hlocals
  induction hlocals with
  | nil => rfl
  | cons hinner _ ih => rw [List.findSome?_cons, List.findSome?_cons, twins_find? hinner hy, ih]

theorem lookup (h : Rebinds x k k' env env') {y : String} (hy : y ≠ x) : env'.lookup y = env.lookup y := by
  rw [Env.lookup, Env.lookup, h.lookupLocal hy, twins_find? h.globals hy]

theorem flatMap_schemes (h : Rebinds x k k' env env') {β : Type} {f : Scheme → List β} (hk : f k = []) (hk' : f k' = []) :
    env'.schemes.flatMap f = env.schemes.flatMap f := by
  have hlocals := h.locals
  rw [schemes, schemes, List.flatMap_append, List.flatMap_append, twins_flatMap hk hk' h.globals]
  congr 1
  generalize env.locals = locals, env'.locals = locals' at hlocals
  induction hlocals with
  | nil => rfl
  | cons hinner _ ih => rw [List.flatMap_cons, List.flatMap_cons, List.flatMap_append, List.flatMap_append, twins_flatMap hk hk' hinner, ih]

variable (hk : k.Closed) (hk' : k'.Closed)

include hk hk'

theorem freeTypeVars (h : Rebinds x k k' env env') (s : Substitution) : env'.freeTypeVars s = env.freeTypeVars s :=
  congrArg OrderedSet.ofList (h.flatMap_schemes (f := fun scheme => (s.applyScheme scheme).freeTypeVars) (hk s).1 (hk' s).1)

theorem freeRowVars (h : Rebinds x k k' env env') (s : Substitution) : env'.freeRowVars s = env.freeRowVars s :=
  congrArg OrderedSet.ofList (h.flatMap_schemes (f := fun scheme => (s.applyScheme scheme).freeRowVars) (hk s).2 (hk' s).2)

end Rebinds

structure Agree (names : List String) (env env' : Env) : Prop where
  lookup : ∀ y ∈ names, env'.lookup y = env.lookup y
  lookupLocal : ∀ y ∈ names, env'.lookupLocal y = env.lookupLocal y
  typeVars : ∀ s, env'.freeTypeVars s = env.freeTypeVars s
  rowVars : ∀ s, env'.freeRowVars s = env.freeRowVars s

theorem Rebinds.agree (h : Rebinds x k k' env env') (hk : k.Closed) (hk' : k'.Closed) {names : List String} (hx : x ∉ names) :
    Agree names env env' :=
  ⟨fun _ hy => h.lookup fun heq => hx (heq ▸ hy), fun _ hy => h.lookupLocal fun heq => hx (heq ▸ hy), h.freeTypeVars hk hk',
    h.freeRowVars hk hk'⟩

theorem nest_eq (env : Env) (bs : List (String × Scheme)) : env.nest bs = ⟨env.globals, .ofList bs :: env.locals⟩ := by
  have (inner : OrderedMap String Scheme) :
      bindAll ⟨env.globals, inner :: env.locals⟩ bs = ⟨env.globals, inner.merge bs :: env.locals⟩ := by
    induction bs generalizing inner with
    | nil => rfl
    | cons b bs ih => exact ih (inner.insert b.1 b.2)
  exact this []

theorem lookupLocal_nest (env : Env) (bs : List (String × Scheme)) (y : String) :
    (env.nest bs).lookupLocal y = ((OrderedMap.ofList bs).find? y).or (env.lookupLocal y) := by
  rw [nest_eq, lookupLocal, List.findSome?_cons, lookupLocal]
  cases (OrderedMap.ofList bs).find? y <;> rfl

theorem lookup_nest (env : Env) (bs : List (String × Scheme)) (y : String) :
    (env.nest bs).lookup y = ((OrderedMap.ofList bs).find? y).or (env.lookup y) := by
  rw [lookup, lookupLocal_nest, Option.or_assoc, nest_eq]
  rfl

-- The scope is the same for both, so that only the variables of the schemes outside matter.
theorem Agree.nest {names names' : List String} (h : Agree names env env') (bs : List (String × Scheme))
    (hnames : ∀ y ∈ names', y ∈ names ∨ y ∈ bs.map Prod.fst) : Agree names' (env.nest bs) (env'.nest bs) := by
  have hlocal : ∀ y ∈ names', (env'.nest bs).lookupLocal y = (env.nest bs).lookupLocal y ∧
      (env'.nest bs).lookup y = (env.nest bs).lookup y := by
    intro y hy
    rw [lookup_nest, lookup_nest, lookupLocal_nest, lookupLocal_nest]
    cases hfind : (OrderedMap.ofList bs).find? y with
    | some scheme => exact ⟨rfl, rfl⟩
    | none =>
        have hy : y ∈ names := (hnames y hy).resolve_right fun hmem => by
          rw [← OrderedMap.mem_keys_ofList] at hmem
          exact OrderedMap.find?_eq_none_iff.mp hfind hmem
        exact ⟨h.lookupLocal y hy, h.lookup y hy⟩
  have hfree {κ : Type} [Ord κ] [Std.TransOrd κ] [Std.LawfulEqOrd κ] (f : Scheme → List κ)
      (h : OrderedSet.ofList (env'.schemes.flatMap f) = OrderedSet.ofList (env.schemes.flatMap f)) :
      OrderedSet.ofList ((env'.nest bs).schemes.flatMap f) = OrderedSet.ofList ((env.nest bs).schemes.flatMap f) := by
    refine OrderedSet.eq_of_mem_iff (OrderedSet.ascending_ofList _) (OrderedSet.ascending_ofList _) fun v => ?_
    have hv : v ∈ env'.schemes.flatMap f ↔ v ∈ env.schemes.flatMap f := by
      rw [← OrderedSet.mem_ofList, h, OrderedSet.mem_ofList]
    rw [OrderedSet.mem_ofList, OrderedSet.mem_ofList, nest_eq, nest_eq]
    simp only [schemes, List.flatMap_cons, List.flatMap_append, List.mem_append] at hv ⊢
    rw [or_left_comm, hv, or_left_comm]
  exact ⟨fun y hy => (hlocal y hy).2, fun y hy => (hlocal y hy).1, fun s => hfree _ (h.typeVars s), fun s => hfree _ (h.rowVars s)⟩

theorem Agree.mono {names names' : List String} (h : Agree names env env') (hnames : ∀ y ∈ names', y ∈ names) : Agree names' env env' :=
  ⟨fun y hy => h.lookup y (hnames y hy), fun y hy => h.lookupLocal y (hnames y hy), h.typeVars, h.rowVars⟩

theorem Agree.under {bound names : List String} (h : Agree (Expr.without bound names) env env') {bs : List (String × Scheme)}
    (hbs : ∀ y ∈ bound, y ∈ bs.map Prod.fst) : Agree names (env.nest bs) (env'.nest bs) := by
  refine h.nest bs fun y hy => ?_
  rw [Expr.mem_without]
  by_cases hbound : y ∈ bound
  · exact .inr (hbs y hbound)
  · exact .inl ⟨hy, hbound⟩

end Env

namespace InferM

variable {α β : Type} {session : Session} {env env' : Env} {names : List String}

theorem bind_congr_of_ensures {m : InferM α} {f f' : α → InferM β} {Q : α → Prop} (hm : ∀ c, Ensures m c fun a _ => Q a)
    (h : ∀ a, Q a → f' a = f a) : m >>= f' = m >>= f := by
  have hagree (c : Context) : f' (m.run c).1 = f (m.run c).1 := h _ (hm c)
  refine Walk.ext (funext fun c => ?_) (funext fun c => ?_)
  · rw [Walk.run_bind, hagree, Walk.run_bind]
  · rw [Walk.passed_bind, hagree, Walk.passed_bind]

theorem forM_congr {as : List α} {f f' : α → InferM Unit} (h : ∀ a ∈ as, f' a = f a) : as.forM f' = as.forM f := by
  induction as with
  | nil => rfl
  | cons a as ih =>
      rw [List.forall_mem_cons] at h
      exact congrArg₂ (fun m m' : InferM Unit => m >>= fun _ => m') h.1 (ih h.2)

theorem ensures_mapM_length {f : α → InferM β} (as : List α) (c : Context) :
    Ensures (as.mapM f) c fun bs _ => bs.length = as.length := by
  induction as generalizing c with
  | nil => exact ensures_pure rfl
  | cons a as ih =>
      rw [List.mapM_cons]
      refine .bind (Q := fun _ _ => True) trivial fun _ c₁ _ => ?_
      exact (ih c₁).bind fun _ _ h => ensures_pure (congrArg Nat.succ h)

section Boundaries

theorem closing_length (node : NodeId) (ts : List Ty) (level : BindingLevel) (generalizable : Bool) (c : Context) :
    Ensures (closing session env node ts level generalizable) c fun cl _ => cl.types.length = ts.length := by
  refine ensures_solve (ensures_get (.bind (Q := fun _ _ => True) trivial fun _ _ _ => ensures_get ?_))
  refine .bind (Q := fun _ _ => True) trivial fun _ _ _ => ?_
  refine .bind (Q := fun _ _ => True) trivial fun _ _ _ => ?_
  apply ensures_get
  exact .bind (Q := fun _ _ => True) trivial fun _ _ _ => ensures_pure (List.length_map ..)

theorem closeBoundary_length (node : NodeId) (ts : List Ty) (level : BindingLevel) (generalizable : Bool) (c : Context) :
    Ensures (closeBoundary session env node ts level generalizable) c fun schemes _ => schemes.length = ts.length := by
  rw [closeBoundary_eq]
  refine (closing_length ..).bind fun cl c₁ hcl => ?_
  rw [← hcl]
  cases generalizable with
  | false =>
      refine .bind (Q := fun schemes _ => schemes.length = cl.types.length) (ensures_pure (List.length_map ..)) fun _ _ h => ?_
      exact .bind (Q := fun _ _ => True) trivial fun _ _ _ => ensures_pure h
  | true =>
      refine (ensures_mapM_length ..).bind fun _ _ h => ?_
      exact .bind (Q := fun _ _ => True) trivial fun _ _ _ => ensures_pure h

theorem recGroup_names (node : NodeId) (bindings : List Binding) (level : BindingLevel)
    {infer : Env → List Ty → InferM (List TypedExpr)}
    (hinfer : ∀ env ts c, Ensures (infer env ts) c fun es _ => es.length = bindings.length) (c : Context) :
    Ensures (recGroup session env node bindings level infer) c fun group _ => group.map TypedBinding.name = bindings.map Prod.fst := by
  apply ensures_modify
  refine (ensures_mapM_length ..).bind fun ts _ hts => ?_
  refine (hinfer ..).bind fun es _ hes => ?_
  refine (closeBoundary_length ..).bind fun schemes _ hschemes => ensures_get (ensures_pure ?_)
  rw [List.map_map]
  exact List.map_fst_zip (by simp [hes, hschemes, hts])

theorem closeBoundary_agree (h : Env.Agree names env env') (node : NodeId) (ts : List Ty) (level : BindingLevel) (generalizable : Bool) :
    closeBoundary session env' node ts level generalizable = closeBoundary session env node ts level generalizable := by
  simp only [closeBoundary, h.typeVars, h.rowVars]

theorem binding_agree (h : Env.Agree names env env') (value : Expr) (level : BindingLevel) {infer infer' : InferM TypedExpr}
    (hinfer : infer' = infer) : binding session env' value level infer' = binding session env value level infer := by
  simp only [binding, hinfer, closeBoundary_agree h]

theorem topLevel_agree (h : Env.Agree names env env') (e : Expr) {infer infer' : InferM TypedExpr} (hinfer : infer' = infer) :
    topLevel session env' e infer' = topLevel session env e infer := by
  simp only [topLevel, hinfer, closeBoundary_agree h]

theorem recGroup_agree (h : Env.Agree names env env') (node : NodeId) (bindings : List Binding) (level : BindingLevel)
    {infer : Env → List Ty → InferM (List TypedExpr)} (hinfer : ∀ (bs : List (String × Scheme)) ts,
      (∀ x ∈ bindings.map Prod.fst, x ∈ bs.map Prod.fst) → infer (env'.nest bs) ts = infer (env.nest bs) ts) :
    recGroup session env' node bindings level infer = recGroup session env node bindings level infer := by
  refine bind_congr_of_ensures (Q := fun _ => True) (fun _ => trivial) fun _ _ => bind_congr_of_ensures (ensures_mapM_length _) ?_
  intro ts hts
  have hnames : ∀ x ∈ bindings.map Prod.fst, x ∈ ((bindings.map Prod.fst).zip (ts.map Scheme.mono)).map Prod.fst := by
    rw [List.map_fst_zip (by simp [hts])]
    exact fun _ hx => hx
  simp only [hinfer _ ts hnames, closeBoundary_agree h]

end Boundaries

section Forms

theorem checkCaptures_agree (lambda : Expr) (h : Env.Agree lambda.freeNames env env') :
    checkCaptures session env' lambda = checkCaptures session env lambda := by
  rw [checkCaptures, checkCaptures]
  refine congrArg _ (congrArg _ (funext fun _ => forM_congr fun name hname => ?_))
  rw [h.lookupLocal name hname]

theorem function_agree (lambda : Expr) {params : List String} {inferBody : Env → InferM TypedExpr}
    (hcaptures : checkCaptures session env' lambda = checkCaptures session env lambda)
    (hbody : ∀ bs : List (String × Scheme), (∀ x ∈ params, x ∈ bs.map Prod.fst) → inferBody (env'.nest bs) = inferBody (env.nest bs)) :
    function session env' lambda params inferBody = function session env lambda params inferBody := by
  rw [function, function, hcaptures]
  congr 2
  refine congrArg _ (funext fun _ => bind_congr_of_ensures (ensures_mapM_length _) fun ts hts => ?_)
  have hnames : ∀ x ∈ params, x ∈ ((params.zip ts).map fun p => (p.1, Scheme.mono p.2)).map Prod.fst := by
    rw [List.map_map]
    change ∀ x ∈ params, x ∈ (params.zip ts).map Prod.fst
    rw [List.map_fst_zip hts.ge]
    exact fun _ hx => hx
  dsimp only
  rw [hbody _ hnames]

theorem letIn_agree (h : Env.Agree names env env') (id : NodeId) (name : String) {value : Expr} {inferValue inferValue' : InferM TypedExpr}
    {inferBody : Env → InferM TypedExpr} (hvalue : inferValue' = inferValue)
    (hbody : ∀ bs : List (String × Scheme), (∀ x ∈ [name], x ∈ bs.map Prod.fst) → inferBody (env'.nest bs) = inferBody (env.nest bs)) :
    letIn session env' id name value inferValue' inferBody = letIn session env id name value inferValue inferBody := by
  rw [letIn, letIn, binding_agree h value .nested hvalue]
  refine congrArg _ (funext fun (scheme, value) => ?_)
  dsimp only
  rw [hbody [(name, scheme)] fun _ hx => hx]

theorem letRec_agree (h : Env.Agree names env env') (id : NodeId) {bindings : List Binding}
    {inferValues : Env → List Ty → InferM (List TypedExpr)} {inferBody : Env → InferM TypedExpr}
    (hlength : ∀ env ts c, Ensures (inferValues env ts) c fun es _ => es.length = bindings.length)
    (hvalues : ∀ (bs : List (String × Scheme)) ts, (∀ x ∈ bindings.map Prod.fst, x ∈ bs.map Prod.fst) →
      inferValues (env'.nest bs) ts = inferValues (env.nest bs) ts)
    (hbody : ∀ bs : List (String × Scheme), (∀ x ∈ bindings.map Prod.fst, x ∈ bs.map Prod.fst) →
      inferBody (env'.nest bs) = inferBody (env.nest bs)) :
    letRec session env' id bindings inferValues inferBody = letRec session env id bindings inferValues inferBody := by
  rw [letRec, letRec, recGroup_agree h id bindings .nested hvalues]
  have hgroup (c : Context) : Ensures (within (Decl.letRecLabel bindings) (recGroup session env id bindings .nested inferValues)) c
      fun group _ => group.map TypedBinding.name = bindings.map Prod.fst := by
    apply ensures_modify
    refine (recGroup_names id bindings .nested hlength _).bind fun _ _ hnames => ?_
    exact ensures_modify (ensures_pure hnames)
  refine bind_congr_of_ensures hgroup fun group hnames => ?_
  have hnested : (group.map fun b => (b.name, b.scheme)).map Prod.fst = bindings.map Prod.fst := (List.map_map ..).trans hnames
  rw [hbody _ fun x hx => hnested ▸ hx]

theorem arm_agree (index : Nat) (scrutinee result : Ty) (pattern : Pattern) {inferBody : Env → InferM TypedExpr}
    (hbody : ∀ bs : List (String × Scheme), (∀ x ∈ pattern.boundNames, x ∈ bs.map Prod.fst) →
      inferBody (env'.nest bs) = inferBody (env.nest bs)) :
    arm session env' index scrutinee result pattern inferBody = arm session env index scrutinee result pattern inferBody := by
  rw [arm, arm]
  refine congrArg _ (bind_congr_of_ensures (fun c => ensures_inferPattern session pattern [] c) fun x hadds => ?_)
  have hnames : ∀ name ∈ pattern.boundNames, name ∈ (x.2.mapValues Scheme.mono).keys := fun name hname => by
    rw [OrderedMap.keys_mapValues]
    exact (hadds name).mpr (.inr hname)
  dsimp only
  rw [hbody _ hnames]

end Forms

end InferM

section Expressions

open InferM

variable (session : Session) {env env' : Env}

theorem inferValues_length (env : Env) (ts : List Ty) (bs : List Binding) (c : Context) :
    Ensures (inferValues session env ts bs) c fun es _ => es.length = bs.length := by
  induction bs generalizing ts c with
  | nil => exact ensures_pure rfl
  | cons b bs ih =>
      refine .bind (Q := fun _ _ => True) trivial fun _ _ _ => ?_
      refine .bind (Q := fun _ _ => True) trivial fun _ c₂ _ => ?_
      exact (ih ts.tail c₂).bind fun _ _ h => ensures_pure (congrArg Nat.succ h)

mutual

theorem inferExpr_agree : ∀ (e : Expr) {env env' : Env}, Env.Agree e.freeUses env env' →
    inferExpr session env' e = inferExpr session env e
  | .lit _ _, _, _, _ => rfl
  | .var id name, env, env', h => congrArg (noted _) (by rw [variableUse, variableUse, h.lookup name (List.mem_singleton_self name)])
  | .lambda id params body, env, env', h => congrArg (noted _) (function_agree (.lambda id params body)
      (checkCaptures_agree _ (h.mono fun _ hy => Expr.mem_freeNames.mp hy)) fun _ hbs => inferExpr_agree body (h.under hbs))
  | .app id func args, env, env', h => congrArg (noted _) (by
      rw [inferExpr_agree func (h.mono fun _ hy => List.mem_append_left _ hy),
        inferExprs_agree args _ (h.mono fun _ hy => List.mem_append_right _ hy)])
  | .letIn id name value body, env, env', h => congrArg (noted _) (letIn_agree h id name
      (inferExpr_agree value (h.mono fun _ hy => List.mem_append_left _ hy)) fun _ hbs =>
        inferExpr_agree body ((h.mono fun _ hy => List.mem_append_right _ hy).under hbs))
  | .letRec id bindings body, env, env', h => congrArg (noted _) (letRec_agree h id
      (fun env ts c => inferValues_length session env ts bindings c)
      (fun _ ts hbs => inferValues_agree bindings ts ((h.under hbs).mono fun _ hy => List.mem_append_left _ hy)) fun _ hbs =>
        inferExpr_agree body ((h.under hbs).mono fun _ hy => List.mem_append_right _ hy))
  | .cond id c t e, env, env', h => congrArg (noted _) (by
      rw [inferExpr_agree c (h.mono fun _ hy => List.mem_append_left _ (List.mem_append_left _ hy)),
        inferExpr_agree t (h.mono fun _ hy => List.mem_append_left _ (List.mem_append_right _ hy)),
        inferExpr_agree e (h.mono fun _ hy => List.mem_append_right _ hy)])
  | .binary id op l r, env, env', h => congrArg (noted _) (by
      rw [inferExpr_agree l (h.mono fun _ hy => List.mem_append_left _ hy),
        inferExpr_agree r (h.mono fun _ hy => List.mem_append_right _ hy)])
  | .unary id op e, env, env', h => congrArg (noted _) (by rw [inferExpr_agree e h])
  | .record id fs, env, env', h => congrArg (noted _) (by rw [inferFields_agree fs _ _ h])
  | .field id e name, env, env', h => congrArg (noted _) (by rw [inferExpr_agree e h])
  | .update id e fs, env, env', h => congrArg (noted _) (by
      rw [inferExpr_agree e (h.mono fun _ hy => List.mem_append_left _ hy)]
      exact congrArg (update id _) (funext fun _ => inferFields_agree fs _ _ (h.mono fun _ hy => List.mem_append_right _ hy)))
  | .list id es, env, env', h => congrArg (noted _) (congrArg (list id) (funext fun after => inferExprs_agree es after h))
  | .tuple id es, env, env', h => congrArg (noted _) (by rw [inferExprs_agree es _ h])
  | .caseOf id e arms, env, env', h => congrArg (noted _) (by
      rw [inferExpr_agree e (h.mono fun _ hy => List.mem_append_left _ hy)]
      exact congrArg (caseOf id _) (funext fun scrutinee => funext fun result =>
        inferArms_agree arms scrutinee result 0 (h.mono fun _ hy => List.mem_append_right _ hy)))

theorem inferExprs_agree : ∀ (es : List Expr) (after : TypedExpr → InferM Unit) {env env' : Env}, Env.Agree (Expr.freeUsesAll es) env env' →
    inferExprs session env' after es = inferExprs session env after es
  | [], _, _, _, _ => rfl
  | e :: es, after, env, env', h => by
      rw [inferExprs, inferExprs, inferExpr_agree e (h.mono fun _ hy => List.mem_append_left _ hy),
        inferExprs_agree es after (h.mono fun _ hy => List.mem_append_right _ hy)]

theorem inferFields_agree : ∀ (fs : List (String × Expr)) (after : List String → String → TypedExpr → InferM Unit)
    (earlier : List String) {env env' : Env}, Env.Agree (Expr.freeUsesFields fs) env env' →
    inferFields session env' after earlier fs = inferFields session env after earlier fs
  | [], _, _, _, _, _ => rfl
  | (name, e) :: fs, after, earlier, env, env', h => by
      rw [inferFields, inferFields, inferExpr_agree e (h.mono fun _ hy => List.mem_append_left _ hy),
        inferFields_agree fs after (name :: earlier) (h.mono fun _ hy => List.mem_append_right _ hy)]

theorem inferValues_agree : ∀ (bs : List (String × Expr)) (ts : List Ty) {env env' : Env}, Env.Agree (Expr.freeUsesFields bs) env env' →
    inferValues session env' ts bs = inferValues session env ts bs
  | [], _, _, _, _ => rfl
  | (_, e) :: bs, ts, env, env', h => by
      rw [inferValues, inferValues, inferExpr_agree e (h.mono fun _ hy => List.mem_append_left _ hy),
        inferValues_agree bs ts.tail (h.mono fun _ hy => List.mem_append_right _ hy)]

theorem inferArms_agree : ∀ (arms : List (Pattern × Expr)) (scrutinee result : Ty) (index : Nat) {env env' : Env},
    Env.Agree (Expr.freeUsesArms arms) env env' →
    inferArms session env' scrutinee result index arms = inferArms session env scrutinee result index arms
  | [], _, _, _, _, _, _ => rfl
  | (p, e) :: arms, scrutinee, result, index, env, env', h => by
      rw [inferArms, inferArms, inferArms_agree arms scrutinee result (index + 1) (h.mono fun _ hy => List.mem_append_right _ hy)]
      rw [arm_agree index scrutinee result p fun _ hbs => inferExpr_agree e ((h.mono fun _ hy => List.mem_append_left _ hy).under hbs)]

end

end Expressions

def Decl.freeUses : Decl → List String
  | .bind _ _ value => value.freeUses
  | .bindRec _ bindings => Expr.without (bindings.map Prod.fst) (Expr.freeUsesFields bindings)
  | .expr e => e.freeUses

namespace Checker

open InferM

variable (session : Session) {env env' : Env} {x : String} {k k' : Scheme}

theorem checkDecl_agree (d : Decl) (h : Env.Agree d.freeUses env env') : checkDecl session env' d = checkDecl session env d := by
  cases d with
  | bind id name value =>
      have hvalue : inferBinding session env' value .topLevel = inferBinding session env value .topLevel :=
        binding_agree h value .topLevel (inferExpr_agree session value h)
      simp only [checkDecl, hvalue]
  | bindRec id bindings =>
      have hgroup : inferRecGroup session env' id bindings .topLevel = inferRecGroup session env id bindings .topLevel :=
        recGroup_agree h id bindings .topLevel fun _ ts hbs => inferValues_agree session bindings ts (h.under hbs)
      simp only [checkDecl, hgroup]
  | expr e =>
      have he : inferTopLevel session env' e = inferTopLevel session env e := topLevel_agree h e (inferExpr_agree session e h)
      simp only [checkDecl, he]

theorem checkDecls_agree (hk : k.Closed) (hk' : k'.Closed) {ds : List Decl} (hds : ∀ d ∈ ds, x ∉ d.freeUses)
    (h : Env.Rebinds x k k' env env') : checkDecls session env' ds = checkDecls session env ds := by
  induction ds generalizing env env' with
  | nil => rfl
  | cons d ds ih =>
      rw [List.forall_mem_cons] at hds
      rw [checkDecls, checkDecls, checkDecl_agree session d (h.agree hk hk' hds.1)]
      exact congrArg _ (funext fun d => congrArg (· >>= _) (ih hds.2 (h.bindAll _)))

end Checker

end RowTyping
