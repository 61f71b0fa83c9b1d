import RowTyping.Proofs.Variables

namespace RowTyping.Ty

variable {σ σ' : TypeVarId → Option Ty} {ρ ρ' : RowVarId → Option Row}

@[simp]
theorem subst_var (v : TypeVar) : (Ty.var v).subst σ ρ = (σ v.id).getD (.var v) := rfl

@[simp]
theorem subst_con (name : String) : (Ty.con name).subst σ ρ = .con name := rfl

@[simp]
theorem subst_app (h : Ty) (as : List Ty) : (Ty.app h as).subst σ ρ = .app (h.subst σ ρ) (as.map (subst σ ρ)) :=
  congrArg _ (substAll_eq as)

@[simp]
theorem subst_list (a : Ty) : (Ty.list a).subst σ ρ = .list (a.subst σ ρ) := rfl

@[simp]
theorem subst_tuple (as : List Ty) : (Ty.tuple as).subst σ ρ = .tuple (as.map (subst σ ρ)) :=
  congrArg _ (substAll_eq as)

@[simp]
theorem subst_fn (ps : List Ty) (e : Effects) (r : Ty) :
    (Ty.fn ps e r).subst σ ρ = .fn (ps.map (subst σ ρ)) (e.map (substRow σ ρ)) (r.subst σ ρ) := by
  change Ty.fn (substAll σ ρ ps) (substEffects σ ρ e) (r.subst σ ρ) = _
  rw [substAll_eq, substEffects_eq]

@[simp]
theorem subst_record (r : Row) : (Ty.record r).subst σ ρ = .record (substRow σ ρ r) := rfl

theorem substRow_none_tail {k : Kind} {fs : List (Label × Ty)} {rest : Option RowVarId} (h : rest.bind ρ = none) :
    substRow σ ρ ⟨k, fs, rest⟩ = ⟨k, OrderedMap.mapValues (subst σ ρ) fs, rest⟩ := by
  simp only [substRow, h, substFields_eq]

theorem substRow_some_tail {k : Kind} {fs : List (Label × Ty)} {rest : Option RowVarId} {tail : Row}
    (h : rest.bind ρ = some tail) :
    substRow σ ρ ⟨k, fs, rest⟩ =
      ⟨k, OrderedMap.merge (OrderedMap.mapValues (subst σ ρ) fs) tail.fields, tail.rest⟩ := by
  simp only [substRow, h, substFields_eq]

theorem substRow_closed (k : Kind) (fs : List (Label × Ty)) :
    substRow σ ρ ⟨k, fs, none⟩ = ⟨k, OrderedMap.mapValues (subst σ ρ) fs, none⟩ :=
  substRow_none_tail rfl

theorem substRow_free {k : Kind} {fs : List (Label × Ty)} {r : RowVarId} (h : ρ r = none) :
    substRow σ ρ ⟨k, fs, some r⟩ = ⟨k, OrderedMap.mapValues (subst σ ρ) fs, some r⟩ :=
  substRow_none_tail h

theorem substRow_bound {k : Kind} {fs : List (Label × Ty)} {r : RowVarId} {tail : Row} (h : ρ r = some tail) :
    substRow σ ρ ⟨k, fs, some r⟩ =
      ⟨k, OrderedMap.merge (OrderedMap.mapValues (subst σ ρ) fs) tail.fields, tail.rest⟩ :=
  substRow_some_tail h

theorem substRow_kind (r : Row) : (substRow σ ρ r).kind = r.kind := by
  obtain ⟨k, fs, rest⟩ := r
  cases h : rest.bind ρ with
  | none => rw [substRow_none_tail h]
  | some tail => rw [substRow_some_tail h]

def AgreeOn (σ σ' : TypeVarId → Option Ty) (ρ ρ' : RowVarId → Option Row) : Var → Prop
  | .type id => σ id = σ' id
  | .row id => ρ id = ρ' id

theorem subst_congr_both :
    (∀ t : Ty, (∀ v ∈ t.vars, AgreeOn σ σ' ρ ρ' v) → t.subst σ ρ = t.subst σ' ρ') ∧
      ∀ r : Row, (∀ v ∈ r.vars, AgreeOn σ σ' ρ ρ' v) → substRow σ ρ r = substRow σ' ρ' r := by
  apply Ty.induct_rows
  case var =>
    intro v h
    have : σ v.id = σ' v.id := h (.type v.id) (by simp)
    simp [this]
  case con => simp
  case app =>
    intro f as hf has h
    rw [subst_app, subst_app, hf fun v hv => h v (mem_vars_app.mpr (.inl hv))]
    congr 1
    exact List.map_congr_left fun a ha => has a ha fun v hv => h v (mem_vars_app.mpr (.inr ⟨a, ha, hv⟩))
  case list =>
    intro a ha h
    rw [subst_list, subst_list, ha fun v hv => h v (mem_vars_list.mpr hv)]
  case tuple =>
    intro as has h
    rw [subst_tuple, subst_tuple]
    congr 1
    exact List.map_congr_left fun a ha => has a ha fun v hv => h v (mem_vars_tuple.mpr ⟨a, ha, hv⟩)
  case fn =>
    intro ps e r hps he hr h
    rw [subst_fn, subst_fn, hr fun v hv => h v (mem_vars_fn.mpr (.inr (.inr hv)))]
    have hmap : ps.map (subst σ ρ) = ps.map (subst σ' ρ') :=
      List.map_congr_left fun p hp => hps p hp fun v hv => h v (mem_vars_fn.mpr (.inl ⟨p, hp, hv⟩))
    have heff : e.map (substRow σ ρ) = e.map (substRow σ' ρ') :=
      Option.map_congr fun row hrow => he row hrow fun v hv => h v (mem_vars_fn.mpr (.inr (.inl ⟨row, hrow, hv⟩)))
    rw [hmap, heff]
  case record =>
    intro r hr h
    rw [subst_record, subst_record, hr fun v hv => h v (mem_vars_record.mpr hv)]
  case row =>
    intro k fs rest hfs h
    have hmap : OrderedMap.mapValues (subst σ ρ) fs = OrderedMap.mapValues (subst σ' ρ') fs :=
      OrderedMap.mapValues_congr fun f hf => hfs f hf fun v hv => h v (Row.mem_vars.mpr (.inl ⟨f, hf, hv⟩))
    cases rest with
    | none => rw [substRow_closed, substRow_closed, hmap]
    | some r =>
        have hr : ρ r = ρ' r := h (.row r) (Row.mem_vars.mpr (.inr ⟨r, rfl, rfl⟩))
        cases htail : ρ r with
        | none => rw [substRow_free htail, substRow_free (hr ▸ htail), hmap]
        | some tail => rw [substRow_bound htail, substRow_bound (hr ▸ htail), hmap]

theorem subst_congr {t : Ty} (h : ∀ v ∈ t.vars, AgreeOn σ σ' ρ ρ' v) : t.subst σ ρ = t.subst σ' ρ' :=
  subst_congr_both.1 t h

theorem substRow_congr {r : Row} (h : ∀ v ∈ r.vars, AgreeOn σ σ' ρ ρ' v) : substRow σ ρ r = substRow σ' ρ' r :=
  subst_congr_both.2 r h

theorem subst_none_both :
    (∀ t : Ty, t.subst (fun _ => none) (fun _ => none) = t) ∧
      ∀ r : Row, substRow (fun _ => none) (fun _ => none) r = r := by
  apply Ty.induct_rows
  case var => simp
  case con => simp
  case app =>
    intro f as hf has
    rw [subst_app, hf, List.map_congr_left has, List.map_id']
  case list =>
    intro a ha
    rw [subst_list, ha]
  case tuple =>
    intro as has
    rw [subst_tuple, List.map_congr_left has, List.map_id']
  case fn =>
    intro ps e r hps he hr
    rw [subst_fn, hr, List.map_congr_left hps, List.map_id', Option.map_congr he, Option.map_id']
  case record =>
    intro r hr
    rw [subst_record, hr]
  case row =>
    intro k fs rest hfs
    have hmap : OrderedMap.mapValues (subst (fun _ => none) fun _ => none) fs = fs :=
      (OrderedMap.mapValues_congr (g := id) hfs).trans (by simp [OrderedMap.mapValues])
    cases rest with
    | none => rw [substRow_closed, hmap]
    | some r => rw [substRow_free rfl, hmap]

theorem subst_none (t : Ty) : t.subst (fun _ => none) (fun _ => none) = t :=
  subst_none_both.1 t

theorem substRow_none (r : Row) : substRow (fun _ => none) (fun _ => none) r = r :=
  subst_none_both.2 r

def image (σ : TypeVarId → Option Ty) (ρ : RowVarId → Option Row) : Var → List Var
  | .type id => ((σ id).map Ty.vars).getD [.type id]
  | .row id => ((ρ id).map Row.vars).getD [.row id]

theorem mem_vars_subst_both {w : Var} :
    (∀ t : Ty, w ∈ (t.subst σ ρ).vars → ∃ v ∈ t.vars, w ∈ image σ ρ v) ∧
      ∀ r : Row, w ∈ (substRow σ ρ r).vars → ∃ v ∈ r.vars, w ∈ image σ ρ v := by
  apply Ty.induct_rows
  case var =>
    intro v h
    refine ⟨.type v.id, by simp, ?_⟩
    cases hv : σ v.id with
    | none => simpa [image, hv] using h
    | some x => simpa [image, hv] using h
  case con => simp
  case app =>
    intro f as hf has h
    rw [subst_app, mem_vars_app] at h
    rcases h with h | ⟨_, hmem, h⟩
    · obtain ⟨v, hv, hw⟩ := hf h
      exact ⟨v, mem_vars_app.mpr (.inl hv), hw⟩
    · obtain ⟨a, ha, rfl⟩ := List.mem_map.mp hmem
      obtain ⟨v, hv, hw⟩ := has a ha h
      exact ⟨v, mem_vars_app.mpr (.inr ⟨a, ha, hv⟩), hw⟩
  case list =>
    intro a ha h
    obtain ⟨v, hv, hw⟩ := ha (mem_vars_list.mp h)
    exact ⟨v, mem_vars_list.mpr hv, hw⟩
  case tuple =>
    intro as has h
    rw [subst_tuple, mem_vars_tuple] at h
    obtain ⟨_, hmem, h⟩ := h
    obtain ⟨a, ha, rfl⟩ := List.mem_map.mp hmem
    obtain ⟨v, hv, hw⟩ := has a ha h
    exact ⟨v, mem_vars_tuple.mpr ⟨a, ha, hv⟩, hw⟩
  case fn =>
    intro ps e r hps he hr h
    rw [subst_fn, mem_vars_fn] at h
    rcases h with ⟨_, hmem, h⟩ | ⟨_, hmem, h⟩ | h
    · obtain ⟨p, hp, rfl⟩ := List.mem_map.mp hmem
      obtain ⟨v, hv, hw⟩ := hps p hp h
      exact ⟨v, mem_vars_fn.mpr (.inl ⟨p, hp, hv⟩), hw⟩
    · obtain ⟨row, hrow, rfl⟩ := Option.map_eq_some_iff.mp hmem
      obtain ⟨v, hv, hw⟩ := he row hrow h
      exact ⟨v, mem_vars_fn.mpr (.inr (.inl ⟨row, hrow, hv⟩)), hw⟩
    · obtain ⟨v, hv, hw⟩ := hr h
      exact ⟨v, mem_vars_fn.mpr (.inr (.inr hv)), hw⟩
  case record =>
    intro r hr h
    obtain ⟨v, hv, hw⟩ := hr (mem_vars_record.mp h)
    exact ⟨v, mem_vars_record.mpr hv, hw⟩
  case row =>
    intro k fs rest hfs h
    have field {f : Label × Ty} (hf : f ∈ OrderedMap.mapValues (subst σ ρ) fs) (hw : w ∈ f.2.vars) :
        ∃ v ∈ (Row.mk k fs rest).vars, w ∈ image σ ρ v := by
      obtain ⟨g, hg, rfl⟩ := List.mem_map.mp hf
      obtain ⟨v, hv, hw⟩ := hfs g hg hw
      exact ⟨v, Row.mem_vars.mpr (.inl ⟨g, hg, hv⟩), hw⟩
    cases rest with
    | none =>
        rw [substRow_closed, Row.mem_vars] at h
        rcases h with ⟨f, hf, h⟩ | ⟨r, hr, _⟩
        · exact field hf h
        · cases hr
    | some r =>
        have hrest : Var.row r ∈ (Row.mk k fs (some r)).vars := Row.mem_vars.mpr (.inr ⟨r, rfl, rfl⟩)
        cases htail : ρ r with
        | none =>
            rw [substRow_free htail, Row.mem_vars] at h
            rcases h with ⟨f, hf, h⟩ | ⟨r', hr', h⟩
            · exact field hf h
            · cases hr'
              exact ⟨.row r, hrest, by simp [image, htail, h]⟩
        | some tail =>
            obtain ⟨k', gs, rest'⟩ := tail
            rw [substRow_bound htail, Row.mem_vars] at h
            rcases h with ⟨f, hf, h⟩ | ⟨r', hr', h⟩
            · rcases OrderedMap.mem_merge hf with hf | hf
              · exact field hf h
              · exact ⟨.row r, hrest, by simpa [image, htail] using Row.mem_vars.mpr (.inl ⟨f, hf, h⟩)⟩
            · exact ⟨.row r, hrest, by simpa [image, htail] using Row.mem_vars.mpr (.inr ⟨r', hr', h⟩)⟩

theorem mem_vars_subst {t : Ty} {w : Var} (h : w ∈ (t.subst σ ρ).vars) : ∃ v ∈ t.vars, w ∈ image σ ρ v :=
  mem_vars_subst_both.1 t h

theorem mem_vars_substRow {r : Row} {w : Var} (h : w ∈ (substRow σ ρ r).vars) : ∃ v ∈ r.vars, w ∈ image σ ρ v :=
  mem_vars_subst_both.2 r h

theorem mem_occurrences_subst_both {v : TypeVar} :
    (∀ t : Ty, .type v ∈ (t.subst σ ρ).occurrences → .type v ∈ t.occurrences ∨
        (∃ id x, σ id = some x ∧ .type v ∈ x.occurrences) ∨ ∃ id x, ρ id = some x ∧ .type v ∈ x.occurrences) ∧
      ∀ r : Row, .type v ∈ (substRow σ ρ r).occurrences → .type v ∈ r.occurrences ∨
        (∃ id x, σ id = some x ∧ .type v ∈ x.occurrences) ∨ ∃ id x, ρ id = some x ∧ .type v ∈ x.occurrences := by
  apply Ty.induct_rows
  case var =>
    intro w h
    cases hw : σ w.id with
    | none => exact .inl (by simpa [hw] using h)
    | some x => exact .inr (.inl ⟨w.id, x, hw, by simpa [hw] using h⟩)
  case con => exact fun _ h => .inl h
  case app =>
    intro f as hf has h
    rw [subst_app, mem_occurrences_app] at h
    rcases h with h | ⟨_, hmem, h⟩
    · exact (hf h).imp_left fun h => mem_occurrences_app.mpr (.inl h)
    · obtain ⟨a, ha, rfl⟩ := List.mem_map.mp hmem
      exact (has a ha h).imp_left fun h => mem_occurrences_app.mpr (.inr ⟨a, ha, h⟩)
  case list => exact fun _ ha h => ha h
  case tuple =>
    intro as has h
    rw [subst_tuple, mem_occurrences_tuple] at h
    obtain ⟨_, hmem, h⟩ := h
    obtain ⟨a, ha, rfl⟩ := List.mem_map.mp hmem
    exact (has a ha h).imp_left fun h => mem_occurrences_tuple.mpr ⟨a, ha, h⟩
  case fn =>
    intro ps e r hps he hr h
    rw [subst_fn, mem_occurrences_fn] at h
    rcases h with ⟨_, hmem, h⟩ | ⟨_, hmem, h⟩ | h
    · obtain ⟨p, hp, rfl⟩ := List.mem_map.mp hmem
      exact (hps p hp h).imp_left fun h => mem_occurrences_fn.mpr (.inl ⟨p, hp, h⟩)
    · obtain ⟨row, hrow, rfl⟩ := Option.map_eq_some_iff.mp hmem
      exact (he row hrow h).imp_left fun h => mem_occurrences_fn.mpr (.inr (.inl ⟨row, hrow, h⟩))
    · exact (hr h).imp_left fun h => mem_occurrences_fn.mpr (.inr (.inr h))
  case record => exact fun _ hr h => hr h
  case row =>
    intro k fs rest hfs h
    have field {f : Label × Ty} (hf : f ∈ OrderedMap.mapValues (subst σ ρ) fs) (hv : .type v ∈ f.2.occurrences) :
        .type v ∈ (Row.mk k fs rest).occurrences ∨
          (∃ id x, σ id = some x ∧ .type v ∈ x.occurrences) ∨ ∃ id x, ρ id = some x ∧ .type v ∈ x.occurrences := by
      obtain ⟨g, hg, rfl⟩ := List.mem_map.mp hf
      exact (hfs g hg hv).imp_left fun h => Row.mem_occurrences.mpr (.inl ⟨g, hg, h⟩)
    cases htail : rest.bind ρ with
    | none =>
        rw [substRow_none_tail htail, Row.mem_occurrences] at h
        rcases h with ⟨f, hf, h⟩ | ⟨_, _, h⟩
        · exact field hf h
        · cases h
    | some tail =>
        obtain ⟨r, rfl, hr⟩ := Option.bind_eq_some_iff.mp htail
        obtain ⟨k', gs, rest'⟩ := tail
        rw [substRow_some_tail htail, Row.mem_occurrences] at h
        rcases h with ⟨f, hf, h⟩ | ⟨_, _, h⟩
        · rcases OrderedMap.mem_merge hf with hf | hf
          · exact field hf h
          · exact .inr (.inr ⟨r, _, hr, Row.mem_occurrences.mpr (.inl ⟨f, hf, h⟩)⟩)
        · cases h

def imageRows (σ : TypeVarId → Option Ty) (ρ : RowVarId → Option Row) : Var → List Row
  | .type id => ((σ id).map Ty.rows).getD []
  | .row id => ((ρ id).map fun r => rowsFields r.fields).getD []

theorem mem_rows_subst_both {row : Row} :
    (∀ t : Ty, row ∈ (t.subst σ ρ).rows →
        (∃ r ∈ t.rows, row = substRow σ ρ r) ∨ ∃ v ∈ t.vars, row ∈ imageRows σ ρ v) ∧
      ∀ r : Row, row ∈ (substRow σ ρ r).rows →
        (∃ r' ∈ r.rows, row = substRow σ ρ r') ∨ ∃ v ∈ r.vars, row ∈ imageRows σ ρ v := by
  apply Ty.induct_rows
  case var =>
    intro v h
    refine .inr ⟨.type v.id, by simp, ?_⟩
    cases hv : σ v.id with
    | none => simp [hv] at h
    | some x => simpa [imageRows, hv] using h
  case con => simp
  case app =>
    intro f as hf has h
    rw [subst_app, mem_rows_app] at h
    rcases h with h | ⟨_, hmem, h⟩
    · rcases hf h with ⟨r, hr, e⟩ | ⟨v, hv, hw⟩
      · exact .inl ⟨r, mem_rows_app.mpr (.inl hr), e⟩
      · exact .inr ⟨v, mem_vars_app.mpr (.inl hv), hw⟩
    · obtain ⟨a, ha, rfl⟩ := List.mem_map.mp hmem
      rcases has a ha h with ⟨r, hr, e⟩ | ⟨v, hv, hw⟩
      · exact .inl ⟨r, mem_rows_app.mpr (.inr ⟨a, ha, hr⟩), e⟩
      · exact .inr ⟨v, mem_vars_app.mpr (.inr ⟨a, ha, hv⟩), hw⟩
  case list =>
    intro a ha h
    rw [subst_list, mem_rows_list] at h
    simpa using ha h
  case tuple =>
    intro as has h
    rw [subst_tuple, mem_rows_tuple] at h
    obtain ⟨_, hmem, h⟩ := h
    obtain ⟨a, ha, rfl⟩ := List.mem_map.mp hmem
    rcases has a ha h with ⟨r, hr, e⟩ | ⟨v, hv, hw⟩
    · exact .inl ⟨r, mem_rows_tuple.mpr ⟨a, ha, hr⟩, e⟩
    · exact .inr ⟨v, mem_vars_tuple.mpr ⟨a, ha, hv⟩, hw⟩
  case fn =>
    intro ps e r hps he hr h
    rw [subst_fn, mem_rows_fn] at h
    rcases h with ⟨_, hmem, h⟩ | ⟨_, hmem, h⟩ | h
    · obtain ⟨p, hp, rfl⟩ := List.mem_map.mp hmem
      rcases hps p hp h with ⟨r', hr', e'⟩ | ⟨v, hv, hw⟩
      · exact .inl ⟨r', mem_rows_fn.mpr (.inl ⟨p, hp, hr'⟩), e'⟩
      · exact .inr ⟨v, mem_vars_fn.mpr (.inl ⟨p, hp, hv⟩), hw⟩
    · obtain ⟨tail, htail, rfl⟩ := Option.map_eq_some_iff.mp hmem
      rcases he tail htail h with ⟨r', hr', e'⟩ | ⟨v, hv, hw⟩
      · exact .inl ⟨r', mem_rows_fn.mpr (.inr (.inl ⟨tail, htail, hr'⟩)), e'⟩
      · exact .inr ⟨v, mem_vars_fn.mpr (.inr (.inl ⟨tail, htail, hv⟩)), hw⟩
    · rcases hr h with ⟨r', hr', e'⟩ | ⟨v, hv, hw⟩
      · exact .inl ⟨r', mem_rows_fn.mpr (.inr (.inr hr')), e'⟩
      · exact .inr ⟨v, mem_vars_fn.mpr (.inr (.inr hv)), hw⟩
  case record =>
    intro r hr h
    rw [subst_record, mem_rows_record] at h
    simpa using hr h
  case row =>
    intro k fs rest hfs h
    have field {f : Label × Ty} (hf : f ∈ OrderedMap.mapValues (subst σ ρ) fs) (hw : row ∈ f.2.rows) :
        (∃ r' ∈ (Row.mk k fs rest).rows, row = substRow σ ρ r') ∨
          ∃ v ∈ (Row.mk k fs rest).vars, row ∈ imageRows σ ρ v := by
      obtain ⟨g, hg, rfl⟩ := List.mem_map.mp hf
      rcases hfs g hg hw with ⟨r', hr', e⟩ | ⟨v, hv, hw⟩
      · exact .inl ⟨r', Row.mem_rows.mpr (.inr ⟨g, hg, hr'⟩), e⟩
      · exact .inr ⟨v, Row.mem_vars.mpr (.inl ⟨g, hg, hv⟩), hw⟩
    have itself : Row.mk k fs rest ∈ (Row.mk k fs rest).rows := Row.mem_rows.mpr (.inl rfl)
    cases hrest : rest.bind ρ with
    | none =>
        have heq : substRow σ ρ ⟨k, fs, rest⟩ = _ := substRow_none_tail hrest
        rw [heq, Row.mem_rows] at h
        rcases h with h | ⟨f, hf, h⟩
        · exact .inl ⟨_, itself, h.trans heq.symm⟩
        · exact field hf h
    | some tail =>
        obtain ⟨r, rfl, htail⟩ := Option.bind_eq_some_iff.mp hrest
        have heq : substRow σ ρ ⟨k, fs, some r⟩ = _ := substRow_bound htail
        rw [heq, Row.mem_rows] at h
        rcases h with h | ⟨f, hf, h⟩
        · exact .inl ⟨_, itself, h.trans heq.symm⟩
        · rcases OrderedMap.mem_merge hf with hf | hf
          · exact field hf h
          · refine .inr ⟨.row r, Row.mem_vars.mpr (.inr ⟨r, rfl, rfl⟩), ?_⟩
            simpa [imageRows, htail] using mem_rowsFields.mpr ⟨f, hf, h⟩

theorem mem_rows_subst {t : Ty} {row : Row} (h : row ∈ (t.subst σ ρ).rows) :
    (∃ r ∈ t.rows, row = substRow σ ρ r) ∨ ∃ v ∈ t.vars, row ∈ imageRows σ ρ v :=
  mem_rows_subst_both.1 t h

theorem mem_rows_substRow {r row : Row} (h : row ∈ (substRow σ ρ r).rows) :
    (∃ r' ∈ r.rows, row = substRow σ ρ r') ∨ ∃ v ∈ r.vars, row ∈ imageRows σ ρ v :=
  mem_rows_subst_both.2 r h

def Ordered (t : Ty) : Prop :=
  ∀ r ∈ t.rows, OrderedMap.Ascending r.fields

instance (t : Ty) : Decidable t.Ordered :=
  inferInstanceAs (Decidable (∀ r ∈ t.rows, _))

end RowTyping.Ty

namespace RowTyping.Row

def Ordered (r : Row) : Prop :=
  ∀ r' ∈ r.rows, OrderedMap.Ascending r'.fields

instance (r : Row) : Decidable r.Ordered :=
  inferInstanceAs (Decidable (∀ r' ∈ r.rows, _))

theorem ordered_iff {r : Row} : r.Ordered ↔ OrderedMap.Ascending r.fields ∧ ∀ f ∈ r.fields, f.2.Ordered := by
  obtain ⟨k, fs, rest⟩ := r
  constructor
  · intro h
    exact ⟨h _ (mem_rows.mpr (.inl rfl)), fun f hf r hr => h r (mem_rows.mpr (.inr ⟨f, hf, hr⟩))⟩
  · rintro ⟨hfs, h⟩ r hr
    rcases mem_rows.mp hr with rfl | ⟨f, hf, hr⟩
    · exact hfs
    · exact h f hf r hr

end RowTyping.Row

namespace RowTyping.Ty

variable {σ : TypeVarId → Option Ty} {ρ : RowVarId → Option Row}

theorem Ordered.fields_substRow {r : Row} (hr : OrderedMap.Ascending r.fields) : OrderedMap.Ascending (substRow σ ρ r).fields := by
  obtain ⟨k, fs, rest⟩ := r
  cases h : rest.bind ρ with
  | none =>
      rw [substRow_none_tail h]
      exact OrderedMap.Ascending.mapValues _ hr
  | some tail =>
      rw [substRow_some_tail h]
      exact OrderedMap.Ascending.merge (OrderedMap.Ascending.mapValues _ hr) _

theorem ordered_imageRows (hσ : ∀ id x, σ id = some x → x.Ordered) (hρ : ∀ id x, ρ id = some x → x.Ordered)
    {v : Var} {row : Row} (h : row ∈ imageRows σ ρ v) : OrderedMap.Ascending row.fields := by
  cases v with
  | type id =>
      cases hx : σ id with
      | none => simp [imageRows, hx] at h
      | some x => exact hσ id x hx row (by simpa [imageRows, hx] using h)
  | row id =>
      cases hx : ρ id with
      | none => simp [imageRows, hx] at h
      | some x =>
          obtain ⟨f, hf, h⟩ := mem_rowsFields.mp (by simpa [imageRows, hx] using h)
          exact (Row.ordered_iff.mp (hρ id x hx)).2 f hf row h

theorem Ordered.subst {t : Ty} (ht : t.Ordered) (hσ : ∀ id x, σ id = some x → x.Ordered)
    (hρ : ∀ id x, ρ id = some x → x.Ordered) : (t.subst σ ρ).Ordered := by
  intro row h
  rcases mem_rows_subst h with ⟨r, hr, rfl⟩ | ⟨v, _, hv⟩
  · exact Ordered.fields_substRow (ht r hr)
  · exact ordered_imageRows hσ hρ hv

theorem ordered_substRow {r : Row} (hr : r.Ordered) (hσ : ∀ id x, σ id = some x → x.Ordered)
    (hρ : ∀ id x, ρ id = some x → x.Ordered) : (substRow σ ρ r).Ordered := by
  intro row h
  rcases mem_rows_substRow h with ⟨r', hr', rfl⟩ | ⟨v, _, hv⟩
  · exact Ordered.fields_substRow (hr r' hr')
  · exact ordered_imageRows hσ hρ hv

end RowTyping.Ty

namespace RowTyping

structure Substitutive (P : Ty → Prop) (Q : Row → Prop) : Prop where
  subst : ∀ {σ : TypeVarId → Option Ty} {ρ : RowVarId → Option Row}, (∀ id x, σ id = some x → P x) →
    (∀ id x, ρ id = some x → Q x) → ∀ {t : Ty}, P t → P (t.subst σ ρ)
  substRow : ∀ {σ : TypeVarId → Option Ty} {ρ : RowVarId → Option Row}, (∀ id x, σ id = some x → P x) →
    (∀ id x, ρ id = some x → Q x) → ∀ {r : Row}, Q r → Q (Ty.substRow σ ρ r)

theorem substitutive_typeVars (C : TypeVar → Prop) :
    Substitutive (fun t => ∀ v, .type v ∈ t.occurrences → C v) fun r => ∀ v, .type v ∈ r.occurrences → C v where
  subst hσ hρ t ht v hv := by
    rcases Ty.mem_occurrences_subst_both.1 t hv with hv | ⟨id, x, hx, hv⟩ | ⟨id, x, hx, hv⟩
    · exact ht v hv
    · exact hσ id x hx v hv
    · exact hρ id x hx v hv
  substRow hσ hρ r hr v hv := by
    rcases Ty.mem_occurrences_subst_both.2 r hv with hv | ⟨id, x, hx, hv⟩ | ⟨id, x, hx, hv⟩
    · exact hr v hv
    · exact hσ id x hx v hv
    · exact hρ id x hx v hv

theorem substitutive_ordered : Substitutive Ty.Ordered Row.Ordered :=
  ⟨fun hσ hρ _ ht => ht.subst hσ hρ, fun hσ hρ _ hr => Ty.ordered_substRow hr hσ hρ⟩

namespace Substitution

def All (P : Ty → Prop) (Q : Row → Prop) (s : Substitution) : Prop :=
  (∀ id t, s.lookupType id = some t → P t) ∧ ∀ id r, s.lookupRow id = some r → Q r

variable {P : Ty → Prop} {Q : Row → Prop} {s : Substitution}

theorem All.chase_both (h : Substitutive P Q) (hs : s.All P Q) (n : Nat) :
    (∀ t : Ty, P t → P (s.chase n t)) ∧ ∀ r : Row, Q r → Q (s.chaseRow n r) := by
  induction n with
  | zero => exact ⟨fun _ ht => ht, fun _ hr => hr⟩
  | succ n ih =>
      have hσ : ∀ id x, (s.lookupType id).map (s.chase n) = some x → P x := by
        intro id x hx
        obtain ⟨t, ht, rfl⟩ := Option.map_eq_some_iff.mp hx
        exact ih.1 t (hs.1 id t ht)
      have hρ : ∀ id x, (s.lookupRow id).map (s.chaseRow n) = some x → Q x := by
        intro id x hx
        obtain ⟨r, hr, rfl⟩ := Option.map_eq_some_iff.mp hx
        exact ih.2 r (hs.2 id r hr)
      exact ⟨fun t ht => h.subst hσ hρ ht, fun r hr => h.substRow hσ hρ hr⟩

theorem All.apply (hs : s.All P Q) (h : Substitutive P Q) {t : Ty} (ht : P t) : P (s.apply t) :=
  (hs.chase_both h _).1 t ht

theorem All.applyRow (hs : s.All P Q) (h : Substitutive P Q) {r : Row} (hr : Q r) : Q (s.applyRow r) :=
  (hs.chase_both h _).2 r hr

end Substitution

end RowTyping
