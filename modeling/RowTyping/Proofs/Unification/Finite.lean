import RowTyping.Proofs.Reach
import RowTyping.Proofs.Unification.Layouts

namespace RowTyping

open Relation

namespace Goal

def vars : Goal → List Var
  | .types e a => e.vars ++ a.vars
  | .rows e a => e.vars ++ a.vars

theorem both_vars {V : Var → Prop} (g : Goal) :
    g.Both (fun t => ∀ v ∈ t.vars, V v) (fun r => ∀ v ∈ r.vars, V v) ↔ ∀ v ∈ g.vars, V v := by
  cases g <;> simp [Both, vars, or_imp, forall_and]

end Goal

structure Substitution.Confined (V : Var → Prop) (s s' : Substitution) : Prop where
  closed : s'.Closed V
  binds : ∀ x, s'.Binds x → s.Binds x ∨ V x

namespace Substitution

variable {V : Var → Prop} {s s₁ s' : Substitution}

theorem Confined.refl (h : s.Closed V) : s.Confined V s :=
  ⟨h, fun _ => .inl⟩

theorem Confined.trans (h : s.Confined V s₁) (h' : s₁.Confined V s') : s.Confined V s' :=
  ⟨h'.closed, fun x hx => (h'.binds x hx).elim (h.binds x) .inr⟩

theorem Closed.bindType (h : s.Closed V) {v : TypeVarId} {t : Ty} (hv : V (.type v)) (ht : ∀ w ∈ t.vars, V w) :
    s.Confined V (s.bindType v t) := by
  constructor
  · intro x y hx hxy
    rcases depends_bindType.mp hxy with ⟨_, hy⟩ | ⟨_, hxy⟩
    · exact ht y hy
    · exact h x y hx hxy
  · intro x hx
    rcases binds_bindType.mp hx with rfl | hx
    · exact .inr hv
    · exact .inl hx

theorem Closed.bindRow (h : s.Closed V) {v : RowVarId} {row : Row} (hv : V (.row v)) (hrow : ∀ w ∈ row.vars, V w) :
    s.Confined V (s.bindRow v row) := by
  constructor
  · intro x y hx hxy
    rcases depends_bindRow.mp hxy with ⟨_, hy⟩ | ⟨_, hxy⟩
    · exact hrow y hy
    · exact h x y hx hxy
  · intro x hx
    rcases binds_bindRow.mp hx with rfl | hx
    · exact .inr hv
    · exact .inl hx

end Substitution

namespace Row

variable {V : Var → Prop} {r a : Row}

theorem vars_rest (h : ∀ v ∈ r.vars, V v) {w : RowVarId} (hw : r.rest = some w) : V (.row w) := by
  obtain ⟨k, fs, rest⟩ := r
  exact h _ (mem_vars.mpr (.inr ⟨w, hw, rfl⟩))

theorem vars_field {f : Label × Ty} (hf : f ∈ r.fields) {v : Var} (hv : v ∈ f.2.vars) : v ∈ r.vars := by
  obtain ⟨k, fs, rest⟩ := r
  exact mem_vars.mpr (.inl ⟨f, hf, hv⟩)

theorem vars_only (h : ∀ v ∈ r.vars, V v) (k : Kind) {rest : Option RowVarId} (hrest : ∀ w, rest = some w → V (.row w)) :
    ∀ v ∈ Row.vars ⟨k, r.only a, rest⟩, V v := by
  intro v hv
  rcases mem_vars.mp hv with ⟨f, hf, hv⟩ | ⟨w, hw, rfl⟩
  · exact h v (vars_field (List.mem_of_mem_filter hf) hv)
  · exact hrest w hw

end Row

theorem Ty.exists_row_of_mem_vars {w : RowVarId} : (∀ t : Ty, Var.row w ∈ t.vars → ∃ r ∈ t.rows, r.rest = some w) ∧
    ∀ r : Row, Var.row w ∈ r.vars → ∃ r' ∈ r.rows, r'.rest = some w := by
  apply Ty.induct_rows
  case var => exact fun _ h => nomatch mem_vars_var.mp h
  case con => exact fun _ h => absurd h mem_vars_con
  case app =>
    intro f as hf has h
    rcases mem_vars_app.mp h with h | ⟨a, ha, h⟩
    · obtain ⟨r, hr, hrest⟩ := hf h
      exact ⟨r, mem_rows_app.mpr (.inl hr), hrest⟩
    · obtain ⟨r, hr, hrest⟩ := has a ha h
      exact ⟨r, mem_rows_app.mpr (.inr ⟨a, ha, hr⟩), hrest⟩
  case list => exact fun _ ha => ha
  case tuple =>
    intro as has h
    obtain ⟨a, ha, h⟩ := mem_vars_tuple.mp h
    obtain ⟨r, hr, hrest⟩ := has a ha h
    exact ⟨r, mem_rows_tuple.mpr ⟨a, ha, hr⟩, hrest⟩
  case fn =>
    intro ps e t hps he ht h
    rcases mem_vars_fn.mp h with ⟨p, hp, h⟩ | ⟨row, hrow, h⟩ | h
    · obtain ⟨r, hr, hrest⟩ := hps p hp h
      exact ⟨r, mem_rows_fn.mpr (.inl ⟨p, hp, hr⟩), hrest⟩
    · obtain ⟨r, hr, hrest⟩ := he row hrow h
      exact ⟨r, mem_rows_fn.mpr (.inr (.inl ⟨row, hrow, hr⟩)), hrest⟩
    · obtain ⟨r, hr, hrest⟩ := ht h
      exact ⟨r, mem_rows_fn.mpr (.inr (.inr hr)), hrest⟩
  case record => exact fun _ hr => hr
  case row =>
    intro k fs rest hfs h
    rcases Row.mem_vars.mp h with ⟨f, hf, h⟩ | ⟨w', hw', heq⟩
    · obtain ⟨r, hr, hrest⟩ := hfs f hf h
      exact ⟨r, Row.mem_rows.mpr (.inr ⟨f, hf, hr⟩), hrest⟩
    · cases heq
      exact ⟨_, Row.mem_rows.mpr (.inl rfl), hw'⟩

namespace Unifier

variable {u u' : Unifier} {n : Nat} {gs : List Goal} {verdict : Verdict} {V : Var → Prop}

theorem BindsTail.confined {r : RowVarId} {row : Row} (h : BindsTail u r row verdict u') (hV : u.subst.Closed V)
    (hr : V (.row r)) (hrow : ∀ v ∈ row.vars, V v) : u.subst.Confined V u'.subst := by
  cases h with
  | same => exact .refl hV
  | refused => exact .refl hV
  | bound => exact hV.bindRow hr hrow

theorem SettlesTails.confined {e a : Row} (h : SettlesTails u e a verdict u') (hV : u.subst.Closed V)
    (hfresh : V (.row u.supply.nextRow)) (he : ∀ v ∈ e.vars, V v) (ha : ∀ v ∈ a.vars, V v) :
    u.subst.Confined V u'.subst := by
  have shared : ∀ w, some u.supply.nextRow = some w → V (.row w) := by
    rintro w ⟨⟩
    exact hfresh
  cases h with
  | agree => exact .refl hV
  | labels => exact .refl hV
  | expected r _ _ hr _ _ hbind => exact hbind.confined hV (Row.vars_rest he hr) (Row.vars_only ha _ nofun)
  | actual r _ _ _ hr _ hbind => exact hbind.confined hV (Row.vars_rest ha hr) (Row.vars_only he _ nofun)
  | join r r' _ _ hr hr' _ _ hax hbind =>
      rw [← hax] at hbind
      refine hbind.confined hV (Row.vars_rest he hr) (Row.vars_only ha _ ?_)
      rintro w ⟨⟩
      exact Row.vars_rest ha hr'
  | shareRefused r _ _ _ hr _ _ _ hbind => exact hbind.confined hV (Row.vars_rest he hr) (Row.vars_only ha _ shared)
  | share r r' _ _ _ hr hr' _ _ hfirst hsecond =>
      have first := hfirst.confined hV (Row.vars_rest he hr) (Row.vars_only ha _ shared)
      exact first.trans (hsecond.confined first.closed (Row.vars_rest ha hr') (Row.vars_only he _ shared))

theorem Solves.confined (h : Solves n u gs verdict u') (hu : u.Ready) (hgs : ∀ g ∈ gs, g.Within u.supply)
    (hV : u.subst.Closed V) (hfree : ∀ v, ¬ u.supply.Covers v → V v) (hmem : ∀ g ∈ gs, ∀ v ∈ g.vars, V v) :
    u.subst.Confined V u'.subst := by
  have inherited := (hereditary_vars V).toInherited
  induction h with
  | nil => exact .refl hV
  | cons hhead _ ihhead ihrest =>
      rw [List.forall_mem_cons] at hgs hmem
      have hfirst := List.forall_mem_singleton.mpr hgs.1
      have moves := hhead.moves hu hfirst
      have first := ihhead hu hfirst hV hfree (List.forall_mem_singleton.mpr hmem.1)
      refine first.trans (ihrest (moves.ready hu) ?_ first.closed ?_ hmem.2)
      · intro g hg
        exact (hgs.2 g hg).mono fun v => moves.covers
      · exact fun v hv => hfree v (mt moves.covers hv)
  | stop _ _ ih =>
      rw [List.forall_mem_cons] at hgs hmem
      exact ih hu (List.forall_mem_singleton.mpr hgs.1) hV hfree (List.forall_mem_singleton.mpr hmem.1)
  | exhausted => exact .refl hV
  | identical => exact .refl hV
  | bind _ hmeet hbind =>
      obtain ⟨he, ha⟩ := (Goal.both_vars _).mpr (List.forall_mem_singleton.mp hmem)
      have he := hV.apply he
      have ha := hV.apply ha
      cases hbind with
      | same => exact .refl hV
      | refused => exact .refl hV
      | bound =>
          rcases Ty.bind_of_meet hmeet with ⟨hx, rfl⟩ | ⟨hx, rfl⟩
          · exact hV.bindType (he _ (by simp [hx])) ha
          · exact hV.bindType (ha _ (by simp [hx])) he
  | parts _ hmeet _ ih =>
      have hg := List.forall_mem_singleton.mp hgs
      obtain ⟨he, ha⟩ := (Goal.both_vars _).mpr (List.forall_mem_singleton.mp hmem)
      have hparts := (Ty.parts_of_meet hmeet).both inherited (hV.apply he) (hV.apply ha)
      exact ih (hu.record _ _ _) (hu.parts_within hg hmeet) hV hfree fun g hg => (Goal.both_vars g).mp (hparts g hg)
  | rows _ hmeet _ ih =>
      have hg := List.forall_mem_singleton.mp hgs
      obtain ⟨he, ha⟩ := (Goal.both_vars _).mpr (List.forall_mem_singleton.mp hmem)
      have he := hV.apply he
      have ha := hV.apply ha
      obtain ⟨hx, hy⟩ := Ty.rows_of_meet hmeet
      rw [hx] at he
      rw [hy] at ha
      refine ih hu (List.forall_mem_singleton.mpr (hu.rows_within hg hmeet)) hV hfree (List.forall_mem_singleton.mpr ?_)
      exact (Goal.both_vars (.rows _ _)).mp ⟨inherited.record he, inherited.record ha⟩
  | clash => exact .refl hV
  | kinds => exact .refl hV
  | equal => exact .refl hV
  | fields _ _ _ _ ih =>
      have hg := List.forall_mem_singleton.mp hgs
      obtain ⟨he, ha⟩ := (Goal.both_vars _).mpr (List.forall_mem_singleton.mp hmem)
      have hcommon := Row.commonGoals_both inherited (hV.applyRow he) (hV.applyRow ha)
      exact ih (hu.record _ _ _) (hu.commonGoals_within hg) hV hfree fun g hg => (Goal.both_vars g).mp (hcommon g hg)
  | restart _ _ hfields _ _ ihfields ih =>
      have hg := List.forall_mem_singleton.mp hgs
      have moves := hfields.moves (hu.record _ _ _) (hu.commonGoals_within hg)
      obtain ⟨he, ha⟩ := (Goal.both_vars _).mpr (List.forall_mem_singleton.mp hmem)
      have he := hV.applyRow he
      have ha := hV.applyRow ha
      have hcommon := Row.commonGoals_both inherited he ha
      have first := ihfields (hu.record _ _ _) (hu.commonGoals_within hg) hV hfree fun g hg => (Goal.both_vars g).mp (hcommon g hg)
      have hwithin := (hu.residual_within hg).mono fun v => moves.covers
      refine first.trans (ih (moves.ready (hu.record _ _ _)) (List.forall_mem_singleton.mpr hwithin) first.closed ?_ ?_)
      · exact fun v hv => hfree v (mt moves.covers hv)
      · refine List.forall_mem_singleton.mpr ((Goal.both_vars (.rows _ _)).mp ⟨?_, ?_⟩)
        · exact (hereditary_vars V).residual _ he
        · exact (hereditary_vars V).residual _ ha
  | tails _ _ hfields _ htails ih =>
      have hg := List.forall_mem_singleton.mp hgs
      have moves := hfields.moves (hu.record _ _ _) (hu.commonGoals_within hg)
      obtain ⟨he, ha⟩ := (Goal.both_vars _).mpr (List.forall_mem_singleton.mp hmem)
      have he := hV.applyRow he
      have ha := hV.applyRow ha
      have hcommon := Row.commonGoals_both inherited he ha
      have first := ih (hu.record _ _ _) (hu.commonGoals_within hg) hV hfree fun g hg => (Goal.both_vars g).mp (hcommon g hg)
      refine first.trans (htails.confined first.closed (hfree _ (mt moves.covers (Nat.lt_irrefl _))) he ha)

end Unifier

section Tails

variable {s : Substitution} {φ : Layout} (hacyclic : s.Acyclic) (hs : s.Ordered) (hconf : s.Conforms φ s.Admits)
  (hφ : φ.Plain)

include hacyclic hs hconf hφ

-- In reach of the tail is a row with the same tail, hence with the value of the whole row, inside a field of the row.
theorem Row.ConformsIn.not_reached {before : Option Fields} {x : Row} (hx : x.ConformsIn φ s.Admits before) (hord : x.Ordered)
    {r : RowVarId} (hrest : x.rest = some r) (hr : ¬ s.Binds (.row r)) {f : Label × Ty} (hf : f ∈ x.fields) {t : Ty}
    (ht : t.Ordered) (htc : t.Conforms φ s.Admits) (hvalue : t.value s.assignment = f.2.value s.assignment) {v : Var}
    (hv : v ∈ t.vars) : ¬ ReflTransGen s.Depends v (.row r) := by
  intro hpath
  obtain ⟨hasc, hord⟩ := Row.ordered_iff.mp hord
  have hM : ∀ A, s.Admits A → s.Admits A := fun _ h => h
  have hA : s.Admits s.assignment := ⟨s.assignment_ordered hs, hacyclic.models hs⟩
  have hrespects := hconf.respects hM hs
  have hmem := s.mem_vars_apply hacyclic hs hconf hM hφ ht htc hv hpath hr
  obtain ⟨row, hrow, htail⟩ := Ty.exists_row_of_mem_vars.1 _ hmem
  have happlied := hs.apply ht
  have hconfApplied := hconf.apply hM hs ht htc
  have hrowConf := hconfApplied row hrow
  have hself := hx.1
  cases hself with
  | untracked _ hheld _ =>
      have hfree : ∀ w ∈ (s.apply t).explicit.vars, False := by
        rw [← hacyclic.value_assignment hs ht, hvalue, hφ _ (hheld f hf)]
        exact fun _ hw => Ty.mem_vars_con hw
      exact hfree _ ((Ty.mem_vars_explicit_both.1 _).mpr hmem)
  | @tracked fields _ _ _ htails =>
      obtain ⟨fs, hfs, hsame⟩ := htails r hrest
      have hkind : φ.tracks row.kind = true := by
        by_contra hne
        rw [Row.start, if_neg hne] at hrowConf
        cases hrowConf with
        | untracked _ _ hnone =>
            rw [hnone r htail] at hfs
            cases hfs
      have hlt := (height_of_mem_rows hrespects hA.1 hφ hkind).1 _ happlied hconfApplied hrow
      rw [hA.2.apply hA.1 hs ht, hvalue] at hlt
      have hapart := hrowConf.apart hkind hrespects
      rw [Row.start, if_pos hkind] at hrowConf
      cases hrowConf with
      | tracked _ _ htails' =>
          obtain ⟨fs', hfs', hsame'⟩ := htails' r htail
          obtain rfl := Option.some.inj (hfs.symm.trans hfs')
          have hget : x.get? f.1 = some f.2 := hasc.find?_of_mem hf
          have hvalues := (hsame.trans hsame'.symm).values _ hA f.1
          rw [Fields.join, hget, Option.some_or, Option.map_some, Fields.join, Fields.empty, Option.or_none] at hvalues
          obtain ⟨t', ht', heq⟩ := Option.map_eq_some_iff.mp hvalues.symm
          have hle := Row.height_field_le hA.1 hapart (Row.ordered_iff.mp fun r' hr' =>
            happlied r' ((Row.rows_of_mem_rows hr').1 _ hrow)).1 (OrderedMap.mem_of_find? ht')
          have := (row.value s.assignment).height_eq
          rw [heq] at hle
          omega

end Tails

namespace Unifier

variable {u u₁ u' : Unifier} {n : Nat} {gs : List Goal} {verdict : Verdict} {φ : Layout}

-- A field of the other row may show the tail itself, which the occurs check sees.
structure Parted (u : Unifier) (e a : Row) : Prop where
  free : ∀ r ∈ e.rest, ¬ u.subst.Binds (.row r)
  own : ∀ r ∈ e.rest, ∀ f ∈ e.fields, ∀ v ∈ f.2.vars, ¬ ReflTransGen u.subst.Depends v (.row r)
  other : ∀ r ∈ e.rest, ∀ f ∈ a.only e, ∀ v ∈ f.2.vars, v ≠ .row r → ¬ ReflTransGen u.subst.Depends v (.row r)

theorem BindsTail.stays_acyclic {r : RowVarId} {k : Kind} {fs : List (Label × Ty)} {rest : Option RowVarId}
    (h : BindsTail u r ⟨k, fs, rest⟩ verdict u') (hacyclic : u.subst.Acyclic) (hr : ¬ u.subst.Binds (.row r))
    (hfs : ∀ f ∈ fs, ∀ v ∈ f.2.vars, v ≠ .row r → ¬ ReflTransGen u.subst.Depends v (.row r))
    (hrest : ∀ w ∈ rest, w ≠ r ∧ ¬ u.subst.Binds (.row w)) : u'.subst.Acyclic := by
  cases h with
  | same => exact hacyclic
  | refused => exact hacyclic
  | bound hself =>
      refine (hacyclic.bindRow_iff hr _).mpr ?_
      rintro ⟨v, hv, hpath⟩
      rcases Row.mem_vars.mp hv with ⟨f, hf, hvf⟩ | ⟨w, hw, rfl⟩
      · exact hfs f hf v hvf (fun heq => hself (heq ▸ hv)) hpath
      · obtain ⟨hne, hfree⟩ := hrest w hw
        exact hne (Var.row.inj (Substitution.eq_of_reach hpath hfree))

theorem SettlesTails.stays_acyclic {e a : Row} (h : SettlesTails u e a verdict u') (hu : u.Ready) (he : e.Within u.supply)
    (ha : a.Within u.supply) (hacyclic : u.subst.Acyclic) (hparted : u.Parted e a) (hparted' : u.Parted a e) :
    u'.subst.Acyclic := by
  have hfresh := hu.free_nextRow
  have hshared {x : Row} (hx : x.Within u.supply) {r : RowVarId} (hr : x.rest = some r) :
      ∀ w ∈ some u.supply.nextRow, w ≠ r ∧ ¬ u.subst.Binds (.row w) := by
    rintro w ⟨⟩
    exact ⟨(Nat.ne_of_lt (covers_rest hx hr)).symm, hfresh⟩
  cases h with
  | agree => exact hacyclic
  | labels => exact hacyclic
  | expected r _ _ hr _ _ hbind => exact hbind.stays_acyclic hacyclic (hparted.free r hr) (hparted.other r hr) nofun
  | actual r _ _ _ hr _ hbind => exact hbind.stays_acyclic hacyclic (hparted'.free r hr) (hparted'.other r hr) nofun
  | join r r' _ _ hr hr' hne _ _ hbind =>
      apply hbind.stays_acyclic hacyclic (hparted.free r hr) nofun
      rintro w ⟨⟩
      exact ⟨hne.symm, hparted'.free r' hr'⟩
  | shareRefused r _ _ _ hr _ _ _ hbind =>
      exact hbind.stays_acyclic hacyclic (hparted.free r hr) (hparted.other r hr) (hshared he hr)
  | share r r' _ u₁ _ hr hr' hne _ hfirst hsecond =>
      have hacyclic₁ := hfirst.stays_acyclic hacyclic (hparted.free r hr) (hparted.other r hr) (hshared he hr)
      cases hfirst with
      | same hsame => exact absurd (Option.some.inj hsame) (Nat.ne_of_lt (covers_rest he hr)).symm
      | bound =>
          have hbinds {w : RowVarId} (hw : ¬ u.subst.Binds (.row w)) (hwr : w ≠ r) :
              ¬ (u.subst.bindRow r ⟨e.kind, a.only e, some u.supply.nextRow⟩).Binds (.row w) := by
            intro h
            rcases Substitution.binds_bindRow.mp h with heq | h
            · exact hwr (Var.row.inj heq)
            · exact hw h
          refine hsecond.stays_acyclic hacyclic₁ (hbinds (hparted'.free r' hr') hne.symm) (fun f hf v hv hvr hpath => ?_) ?_
          · rcases (reflTransGen_iff_eq_or_transGen.mp hpath) with heq | hpath
            · exact hvr heq.symm
            · rcases Substitution.transGen_bindRow hpath with hpath | ⟨hpath, _⟩
              · exact hparted'.other r' hr' f hf v hv hvr hpath.to_reflTransGen
              · exact hparted.own r hr f (List.mem_of_mem_filter hf) v hv hpath
          · rintro w ⟨⟩
            exact ⟨(Nat.ne_of_lt (covers_rest ha hr')).symm, hbinds hfresh (Nat.ne_of_lt (covers_rest he hr)).symm⟩

-- What the common fields have bound has its variables in one of them, and neither of the two leads to the tail.
theorem parted_of_common {e a : Row} (hacyclic : u.subst.Acyclic) (hs : u.subst.Ordered) (hconf : u.subst.Conforms φ u.subst.Admits)
    (hφ : φ.Plain) {b : Option Fields} (he : e.ConformsIn φ u.subst.Admits b) (heo : e.Ordered)
    (hfree : ∀ r ∈ e.rest, ¬ u.subst.Binds (.row r))
    (hcommon : ∀ f ∈ a.only e, ∀ v ∈ f.2.vars, u.subst.Binds v → ∃ f ∈ e.fields, ∃ t : Ty, t.Ordered ∧ t.Conforms φ u.subst.Admits ∧
      t.value u.subst.assignment = f.2.value u.subst.assignment ∧ v ∈ t.vars) : u.Parted e a where
  free := hfree
  own r hr f hf v hv := he.not_reached hacyclic hs hconf hφ heo hr (hfree r hr) hf ((Row.ordered_iff.mp heo).2 f hf) (he.2 f hf) rfl hv
  other r hr f hf v hv hne hpath := by
    rcases ReflTransGen.cases_head hpath with heq | ⟨w, hstep, _⟩
    · exact hne heq
    · obtain ⟨f, hf, t, ht, htc, hvalue, hv⟩ := hcommon f hf v hv hstep.binds
      exact he.not_reached hacyclic hs hconf hφ heo hr (hfree r hr) hf ht htc hvalue hv hpath

theorem Solves.common_of_binds {e a : Row} (hacyclic : u.subst.Acyclic) (hu : u.Ready) (hg : (Goal.rows e a).Within u.supply)
    (h : Solves n u ((u.subst.applyRow e).commonGoals (u.subst.applyRow a)) verdict u₁) {v : Var}
    (hv : v ∈ (u.subst.applyRow e).vars ∨ v ∈ (u.subst.applyRow a).vars) (hbound : u₁.subst.Binds v) :
    ∃ g ∈ (u.subst.applyRow e).commonGoals (u.subst.applyRow a), v ∈ g.vars := by
  have happlied := hu.applyGoal_within hg
  have hfree : ¬ u.subst.Binds v := hv.elim hacyclic.free_of_applyRow hacyclic.free_of_applyRow
  have hcovers : u.supply.Covers v := hv.elim (happlied.1.2 v) (happlied.2.2 v)
  have hunbound := Row.commonGoals_both (hereditary_vars fun v => ¬ u.subst.Binds v).toInherited
    (fun _ => hacyclic.free_of_applyRow (r := e)) (fun _ => hacyclic.free_of_applyRow (r := a))
  let V (v : Var) : Prop := ¬ u.supply.Covers v ∨ ∃ g ∈ (u.subst.applyRow e).commonGoals (u.subst.applyRow a), v ∈ g.vars
  have hclosed : u.subst.Closed V := by
    rintro x y (hx | ⟨g, hg, hx⟩) hxy
    · exact absurd (hu.covers x hxy.binds) hx
    · exact absurd hxy.binds ((Goal.both_vars g).mp (hunbound g hg) x hx)
  have hconfined := h.confined hu (hu.commonGoals_within hg) hclosed (fun v => .inl) fun g hg v hv => .inr ⟨g, hg, hv⟩
  exact ((hconfined.binds v hbound).resolve_left hfree).resolve_left (not_not_intro hcovers)

theorem SettlesTails.acyclic_of_common {e a : Row} (hu : u.Ready) (hacyclic : u.subst.Acyclic) (hg : (Goal.rows e a).Within u.supply)
    (hfields : Solves n u ((u.subst.applyRow e).commonGoals (u.subst.applyRow a)) .solved u₁) (hacyclic₁ : u₁.subst.Acyclic)
    (hbound : (u₁.isBound (u.subst.applyRow e).rest || u₁.isBound (u.subst.applyRow a).rest) = false)
    (h : SettlesTails u₁ (u.subst.applyRow e) (u.subst.applyRow a) verdict u')
    (hconf : u₁.subst.Conforms φ u₁.subst.Admits) (hφ : φ.Plain) {b : Option Fields}
    (he : (u.subst.applyRow e).ConformsIn φ u₁.subst.Admits b) (ha : (u.subst.applyRow a).ConformsIn φ u₁.subst.Admits b) :
    u'.subst.Acyclic := by
  have moves := hfields.moves hu (hu.commonGoals_within hg)
  have hready := moves.ready hu
  have hs := hready.within.ordered
  have happlied := hu.applyGoal_within hg
  have heo := Row.ordered_iff.mp happlied.1.1
  have hao := Row.ordered_iff.mp happlied.2.1
  have hcommon := hfields.sound rfl hu (hu.commonGoals_within hg) (u₁.subst.assignment_ordered hs) (hacyclic₁.models hs)
  obtain ⟨hfe, hfa⟩ := Bool.or_eq_false_iff.mp hbound
  -- A variable of either row that is bound by now is one of two common fields, which have one value.
  have hpair : ∀ v, v ∈ (u.subst.applyRow e).vars ∨ v ∈ (u.subst.applyRow a).vars → u₁.subst.Binds v →
      ∃ f ∈ (u.subst.applyRow e).fields, ∃ f' ∈ (u.subst.applyRow a).fields,
        f.2.value u₁.subst.assignment = f'.2.value u₁.subst.assignment ∧ (v ∈ f.2.vars ∨ v ∈ f'.2.vars) := by
    intro v hv hbinds
    obtain ⟨g, hg, hv⟩ := hfields.common_of_binds hacyclic hu hg hv hbinds
    obtain ⟨l, t, t', hmem, ht', rfl⟩ := Row.mem_commonGoals.mp hg
    exact ⟨_, hmem, _, OrderedMap.mem_of_find? ht', hcommon _ hg, List.mem_append.mp hv⟩
  have hparted : u₁.Parted (u.subst.applyRow e) (u.subst.applyRow a) := by
    refine parted_of_common hacyclic₁ hs hconf hφ he happlied.1.1 (isBound_eq_false.mp hfe) fun f hf v hv hbinds => ?_
    obtain ⟨f₁, hf₁, f₂, hf₂, hvalue, hv⟩ := hpair v (.inr (Row.vars_field (List.mem_of_mem_filter hf) hv)) hbinds
    rcases hv with hv | hv
    · exact ⟨f₁, hf₁, f₁.2, heo.2 f₁ hf₁, he.2 f₁ hf₁, rfl, hv⟩
    · exact ⟨f₁, hf₁, f₂.2, hao.2 f₂ hf₂, ha.2 f₂ hf₂, hvalue.symm, hv⟩
  have hparted' : u₁.Parted (u.subst.applyRow a) (u.subst.applyRow e) := by
    refine parted_of_common hacyclic₁ hs hconf hφ ha happlied.2.1 (isBound_eq_false.mp hfa) fun f hf v hv hbinds => ?_
    obtain ⟨f₁, hf₁, f₂, hf₂, hvalue, hv⟩ := hpair v (.inl (Row.vars_field (List.mem_of_mem_filter hf) hv)) hbinds
    rcases hv with hv | hv
    · exact ⟨f₂, hf₂, f₁.2, heo.2 f₁ hf₁, he.2 f₁ hf₁, hvalue, hv⟩
    · exact ⟨f₂, hf₂, f₂.2, hao.2 f₂ hf₂, ha.2 f₂ hf₂, rfl, hv⟩
  obtain ⟨hewithin, hawithin⟩ := happlied.mono fun v => moves.covers
  exact h.stays_acyclic hready hewithin hawithin hacyclic₁ hparted hparted'

-- Fresh tails make the layout a larger one.
theorem Solves.conforms_admits (h : Solves n u gs verdict u') (hu : u.Ready) (hgs : ∀ g ∈ gs, g.Within u.supply) (hφ : φ.Plain)
    (hs : u.subst.Conforms φ u.subst.Admits) (hgoals : ∀ g ∈ gs, g.Conforms φ u.subst.Admits) :
    ∃ φ', φ.Agrees φ' u.supply ∧ φ'.Plain ∧ (∀ A, u'.subst.Admits A → u.subst.Admits A) ∧ u'.subst.Conforms φ' u'.subst.Admits := by
  have hadmits : ∀ A, u'.subst.Admits A → u.subst.Admits A := fun A hA => ⟨hA.1, hA.2.of_extends (h.moves hu hgs).extends⟩
  obtain ⟨φ', hagree, hconf⟩ := h.conforms hu hgs φ
  refine ⟨φ', hagree, fun t ht => hφ t (hagree.held ▸ ht), hadmits, ?_⟩
  exact hconf _ (fun _ hA => hA) (hs.mono hadmits) fun g hg => (hgoals g hg).mono hadmits

theorem Solves.stays_acyclic (h : Solves n u gs verdict u') (hu : u.Ready) (hgs : ∀ g ∈ gs, g.Within u.supply)
    (hacyclic : u.subst.Acyclic) (hφ : φ.Plain) (hs : u.subst.Conforms φ u.subst.Admits)
    (hgoals : ∀ g ∈ gs, g.Conforms φ u.subst.Admits) : u'.subst.Acyclic := by
  induction h generalizing φ with
  | nil => exact hacyclic
  | cons hhead _ ihhead ihrest =>
      rw [List.forall_mem_cons] at hgs hgoals
      have hfirst := List.forall_mem_singleton.mpr hgs.1
      have hgoal := List.forall_mem_singleton.mpr hgoals.1
      have moves := hhead.moves hu hfirst
      obtain ⟨φ₁, hagree, hφ₁, hadmits, hs₁⟩ := hhead.conforms_admits hu hfirst hφ hs hgoal
      refine ihrest (moves.ready hu) (fun g hg => (hgs.2 g hg).mono fun v => moves.covers)
        (ihhead hu hfirst hacyclic hφ hs hgoal) hφ₁ hs₁ fun g hg => ?_
      exact ((hgoals.2 g hg).mono hadmits).agrees hagree (hgs.2 g hg)
  | stop _ _ ih =>
      rw [List.forall_mem_cons] at hgs hgoals
      exact ih hu (List.forall_mem_singleton.mpr hgs.1) hacyclic hφ hs (List.forall_mem_singleton.mpr hgoals.1)
  | exhausted => exact hacyclic
  | identical => exact hacyclic
  | bind _ hmeet hbind =>
      cases hbind with
      | same => exact hacyclic
      | refused => exact hacyclic
      | bound _ hself =>
          rcases Ty.bind_of_meet hmeet with ⟨_, rfl⟩ | ⟨_, rfl⟩
          · exact hacyclic.bindType hself fun w hw => hacyclic.free_of_apply hw
          · exact hacyclic.bindType hself fun w hw => hacyclic.free_of_apply hw
  | parts _ hmeet _ ih =>
      have hg := List.forall_mem_singleton.mp hgs
      obtain ⟨he, ha⟩ := List.forall_mem_singleton.mp hgoals
      refine ih (hu.record _ _ _) (hu.parts_within hg hmeet) hacyclic hφ hs fun g hmem => Goal.conforms_of_both ?_
      exact (Ty.parts_of_meet hmeet).both (inherited_conforms φ _) (hs.apply (fun _ hA => hA) hu.within.ordered hg.1.1 he)
        (hs.apply (fun _ hA => hA) hu.within.ordered hg.2.1 ha) g hmem
  | rows _ hmeet _ ih =>
      have hg := List.forall_mem_singleton.mp hgs
      obtain ⟨he, ha⟩ := List.forall_mem_singleton.mp hgoals
      obtain ⟨hx, hy⟩ := Ty.rows_of_meet hmeet
      have he := hs.apply (fun _ hA => hA) hu.within.ordered hg.1.1 he
      have ha := hs.apply (fun _ hA => hA) hu.within.ordered hg.2.1 ha
      rw [hx] at he
      rw [hy] at ha
      refine ih hu (List.forall_mem_singleton.mpr (hu.rows_within hg hmeet)) hacyclic hφ hs
        (List.forall_mem_singleton.mpr (Goal.conforms_of_both ?_))
      exact ⟨(inherited_conforms φ _).record he, (inherited_conforms φ _).record ha⟩
  | clash => exact hacyclic
  | kinds => exact hacyclic
  | equal => exact hacyclic
  | fields hkind _ _ _ ih =>
      have hg := List.forall_mem_singleton.mp hgs
      obtain ⟨_, he, ha⟩ := hu.rows_conform (fun _ hA => hA) hs hg hkind (List.forall_mem_singleton.mp hgoals)
      exact ih (hu.record _ _ _) (hu.commonGoals_within hg) hacyclic hφ hs (commonGoals_conform he ha)
  | @restart n u u₁ u' e a verdict hkind _ hfields _ _ ihfields ih =>
      have hg := List.forall_mem_singleton.mp hgs
      have hready := hu.record .enterRows (.record (u.subst.applyRow e)) (.record (u.subst.applyRow a))
      have moves := hfields.moves hready (hu.commonGoals_within hg)
      have happlied := hu.applyGoal_within hg
      obtain ⟨_, he, ha⟩ := hu.rows_conform (fun _ hA => hA) hs hg hkind (List.forall_mem_singleton.mp hgoals)
      have hcommons := commonGoals_conform he ha
      have hacyclic₁ := ihfields hready (hu.commonGoals_within hg) hacyclic hφ hs hcommons
      obtain ⟨φ₁, hagree, hφ₁, hadmits, hs₁⟩ := hfields.conforms_admits hready (hu.commonGoals_within hg) hφ hs hcommons
      refine ih (moves.ready hready) (List.forall_mem_singleton.mpr ((hu.residual_within hg).mono fun v => moves.covers))
        hacyclic₁ hφ₁ hs₁ (List.forall_mem_singleton.mpr (Goal.Conforms.agrees hagree ?_ (hu.residual_within hg)))
      intro _
      refine Row.residual_conforms (he.mono hadmits) (ha.mono hadmits) happlied.1.ascending happlied.2.ascending fun A hA => ?_
      exact hfields.sound rfl hready (hu.commonGoals_within hg) hA.1 hA.2
  | @tails n u u₁ u' e a verdict hkind _ hfields hbound htails ih =>
      have hg := List.forall_mem_singleton.mp hgs
      have hready := hu.record .enterRows (.record (u.subst.applyRow e)) (.record (u.subst.applyRow a))
      have happlied := hu.applyGoal_within hg
      obtain ⟨_, he, ha⟩ := hu.rows_conform (fun _ hA => hA) hs hg hkind (List.forall_mem_singleton.mp hgoals)
      have hcommons := commonGoals_conform he ha
      have hacyclic₁ := ih hready (hu.commonGoals_within hg) hacyclic hφ hs hcommons
      obtain ⟨φ₁, hagree, hφ₁, hadmits, hs₁⟩ := hfields.conforms_admits hready (hu.commonGoals_within hg) hφ hs hcommons
      exact htails.acyclic_of_common hready hacyclic hg hfields hacyclic₁ hbound hs₁ hφ₁
        ((he.mono hadmits).agrees hagree happlied.1) ((ha.mono hadmits).agrees hagree happlied.2)

end Unifier

end RowTyping
