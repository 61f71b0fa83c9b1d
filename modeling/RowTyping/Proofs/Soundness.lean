import RowTyping.Proofs.Inference.Checkers

namespace RowTyping

namespace State

variable {s : State}

theorem ownsScheme_plain (hs : s.Ready) {params : List Ty} {effects : List Label} {result : Ty}
    (hparams : ∀ t ∈ params, s.Owns t) (hresult : s.Owns result) : s.OwnsScheme (Prelude.plain params effects result) :=
  ownsScheme_mono (owns_fn hparams (ownsEffects_closed hs effects) hresult)

theorem ownsEnv_prelude (hs : s.Ready) {block : Supply} (htypes : block.nextType + 4 ≤ s.supply.nextType)
    (hrows : block.nextRow + 1 ≤ s.supply.nextRow) (hfields : ∀ φ ∈ s.layout, φ.fields block.nextRow = none) :
    s.OwnsEnv (Env.empty.bindAll (Provider.prelude.values block).1) := by
  have htype (i : Nat) (hi : i < 4) : s.Owns (.ofVar (block.nextType + i)) :=
    owns_var (Nat.lt_of_lt_of_le (Nat.add_lt_add_left hi _) htypes)
  have hcon (name : String) : s.Owns (.con name) := owns_con name
  have hone {t : Ty} (ht : s.Owns t) : ∀ t' ∈ [t], s.Owns t' := List.forall_mem_singleton.mpr ht
  have hplain (params : List String) (effects : List Label) (result : String) :
      s.OwnsScheme (Prelude.plain (params.map Ty.con) effects (.con result)) :=
    ownsScheme_plain hs (List.forall_mem_map.mpr fun name _ => hcon name) (hcon result)
  have hpure := ownsEffects_none hs
  have hshow : s.OwnsScheme (Prelude.showScheme block.nextType) :=
    ⟨owns_fn (hone (htype 0 (by decide))) hpure (hcon _), List.forall_mem_singleton.mpr (htype 0 (by decide)).within, List.forall_mem_nil _⟩
  have hlength : s.OwnsScheme (Prelude.lengthScheme (block.nextType + 1)) :=
    ⟨owns_fn (hone (owns_list (htype 1 (by decide)))) hpure (hcon _), List.forall_mem_nil _, List.forall_mem_nil _⟩
  have hmap : s.OwnsScheme (Prelude.mapScheme (block.nextType + 2) (block.nextType + 3) block.nextRow) := by
    have hrow : s.supply.Covers (.row block.nextRow) := Nat.lt_of_lt_of_le (Nat.lt_succ_self _) hrows
    have heffects := ownsEffects_opened hs [] hrow hfields
    refine ⟨owns_fn (List.forall_mem_cons.mpr ⟨?_, ?_⟩) heffects (owns_list (htype 3 (by decide))), List.forall_mem_nil _,
      List.forall_mem_singleton.mpr hrow⟩
    · exact owns_fn (hone (htype 2 (by decide))) heffects (htype 3 (by decide))
    · exact hone (owns_list (htype 2 (by decide)))
  have hfloat : s.OwnsScheme (.mono (.fn [.int] none .float)) := ownsScheme_mono (owns_fn (hone (hcon _)) hpure (hcon _))
  have hempty : s.OwnsEnv Env.empty := List.forall_mem_nil _
  apply hempty.bindAll
  refine List.forall_mem_cons.mpr ⟨hplain ["String"] _ "Unit", ?_⟩
  refine List.forall_mem_cons.mpr ⟨hshow, ?_⟩
  refine List.forall_mem_cons.mpr ⟨hlength, ?_⟩
  refine List.forall_mem_cons.mpr ⟨hmap, ?_⟩
  refine List.forall_mem_cons.mpr ⟨hplain ["String"] _ "String", ?_⟩
  refine List.forall_mem_cons.mpr ⟨hplain ["String"] _ "String", ?_⟩
  refine List.forall_mem_cons.mpr ⟨hplain [] _ "Int", ?_⟩
  refine List.forall_mem_cons.mpr ⟨hplain [] _ "Float", ?_⟩
  exact List.forall_mem_cons.mpr ⟨hplain ["Int"] _ "Unit", List.forall_mem_singleton.mpr hfloat⟩

end State

namespace Checker

open InferM

variable {config : Config} {counters counters' : Counters} {checker : Checker} {events : List Event} {supply : Supply}

def inferring (checker : Checker) (supply : Supply) (signatures : EffectSignatures) (e : Expr) : TypedExpr × Context :=
  (within (Decl.expr e).label (inferTopLevel (checker.session signatures) checker.globals e)).run (checker.context supply)

theorem inferring_equations (checker : Checker) (supply : Supply) (signatures : EffectSignatures) (e : Expr) :
    (checker.inferring supply signatures e).2.equations = .empty := by
  have h : Ensures (within (Decl.expr e).label (inferTopLevel (checker.session signatures) checker.globals e)) (checker.context supply)
      fun _ c => c.equations = .empty := by
    apply ensures_modify
    exact .bind (topLevel_equations ..) fun _ _ h => h
  rw [inferring]
  exact h

theorem supports_prelude {s : State} (hbuild : Checker.build config .prelude counters = (.ok (checker, counters'), events))
    (hlayout : ∀ φ ∈ s.layout, config.encoding = if φ.positional then .positional else .rows) (signatures : EffectSignatures) :
    s.Supports (checker.session signatures) := by
  refine ⟨fun φ hφ => ?_, fun t ht => ?_⟩
  · obtain ⟨rfl, -⟩ := Checker.build_ok hbuild
    exact hlayout φ hφ
  · rcases Registry.isDefault_prelude hbuild ht with rfl | rfl
    · exact ⟨rfl, State.owns_con _⟩
    · exact ⟨rfl, State.owns_con _⟩

theorem keeps_inferring {s : State} (hs : s.Ready) {session : Session} {env : Env} (henv : s.OwnsEnv env)
    (hsupports : s.Supports session) (e : Expr) :
    InferM.Keeps (within (Decl.expr e).label (inferTopLevel session env e)) s fun typed s' =>
      s.Follows s' ∧ s'.Inferred session (Scoped env e) typed := by
  refine keeps_within hs fun s₁ h₁ hs₁ => ?_
  refine (keeps_topLevel hs₁ (h₁.ownsEnv henv) (h₁.supports hsupports) (infers_inferExpr _ e _ fun _ _ h => h) e).mono ?_
  rintro typed s₂ h₂ hs₂ ⟨htyped, -⟩ s₃ h₃ -
  exact ⟨((h₁.trans h₂).trans h₃).toFollows, h₃.inferred hs₂ htyped⟩

theorem ownsEnv_build {l : Option Layout} (hbuild : Checker.build config .prelude counters = (.ok (checker, counters'), events))
    (htypes : counters'.nextType ≤ supply.nextType) (hrowVars : counters'.nextRow ≤ supply.nextRow)
    (hs : (State.start checker supply l).Ready) (hfields : ∀ φ ∈ l, ∀ r, φ.fields r = none) :
    (State.start checker supply l).OwnsEnv checker.globals := by
  obtain ⟨rfl, rfl⟩ := Checker.build_ok hbuild
  refine State.ownsEnv_prelude hs ?_ ?_ fun φ hφ => hfields φ hφ _
  · rw [(State.context_start ..).2.1]
    exact le_trans (Nat.add_le_add_left (by decide) _) htypes
  · rw [(State.context_start ..).2.1]
    exact le_trans (Nat.add_le_add_left (by decide) _) hrowVars

theorem run_start (checker : Checker) (supply : Supply) (l : Option Layout) (signatures : EffectSignatures) (e : Expr) :
    (within (Decl.expr e).label (inferTopLevel (checker.session signatures) checker.globals e)).run (State.start checker supply l).context =
      checker.inferring supply signatures e := by
  rw [inferring, State.start]

theorem inferring_inferred (hbuild : Checker.build config .prelude counters = (.ok (checker, counters'), events))
    (htypes : counters'.nextType ≤ supply.nextType) (hrowVars : counters'.nextRow ≤ supply.nextRow) (signatures : EffectSignatures)
    (e : Expr) : ∃ φ, φ.positional = (config.encoding == .positional) ∧
      State.Ready ⟨(checker.inferring supply signatures e).2, some φ⟩ ∧
      State.Inferred ⟨(checker.inferring supply signatures e).2, some φ⟩ (checker.session signatures) (Scoped checker.globals e)
        (checker.inferring supply signatures e).1 := by
  let start := Layout.records (config.encoding == .positional)
  have hrecords : ∀ φ ∈ some start, φ = start := fun φ hφ => (Option.some.inj hφ).symm
  have hs : (State.start checker supply (some start)).Ready :=
    State.ready_start fun φ hφ => hrecords φ hφ ▸ Layout.records_records _
  have henv := ownsEnv_build hbuild htypes hrowVars hs fun φ hφ r => hrecords φ hφ ▸ rfl
  have hlayout : ∀ φ ∈ some start, config.encoding = if φ.positional then .positional else .rows := by
    rintro _ ⟨⟩
    change config.encoding = if config.encoding == .positional then .positional else .rows
    cases config.encoding <;> rfl
  have hkeeps := keeps_inferring hs henv (supports_prelude hbuild hlayout signatures) e
  rw [InferM.Keeps, run_start] at hkeeps
  obtain ⟨l, -, hready, hfollows, htyped⟩ := hkeeps
  obtain ⟨φ, rfl, hagree⟩ := hfollows.agrees_left rfl
  exact ⟨φ, hagree.positional, hready, htyped⟩

def exported (checker : Checker) (x : TypedExpr × Context) : Except CheckError CheckedExpr × List Event :=
  let typed := x.2.subst.applyExpr x.1
  let (table, events) := finish [typed] x.2
  (table.map fun resolved => ⟨typed, resolved, checker.traceOf x.2⟩, events)

theorem checkExpr_eq (signatures : EffectSignatures) (e : Expr) :
    checker.checkExpr supply signatures e = checker.exported (checker.inferring supply signatures e) := by
  rw [checkExpr, inferring]
  generalize Walk.run (within (Decl.expr e).label (inferTopLevel (checker.session signatures) checker.globals e)) _ = x
  rfl

theorem exported_ok {x : TypedExpr × Context} {out : CheckedExpr} {log : List Event} (h : checker.exported x = (.ok out, log)) :
    out.typed = x.2.subst.applyExpr x.1 ∧ x.2.errors = [] ∧ x.2.resolved.Holds out.resolved := by
  rw [exported] at h
  cases hanswer : finish [x.2.subst.applyExpr x.1] x.2 with
  | mk answer log' =>
      rw [hanswer] at h
      cases answer with
      | error => cases congrArg Prod.fst h
      | ok table =>
          obtain rfl := Except.ok.inj (congrArg Prod.fst h)
          exact ⟨rfl, finish_ok hanswer⟩

theorem checkExpr_typed (hbuild : Checker.build config .prelude counters = (.ok (checker, counters'), events))
    (hrows : config.encoding = .rows) (htypes : counters'.nextType ≤ supply.nextType) (hrowVars : counters'.nextRow ≤ supply.nextRow)
    {signatures : EffectSignatures} {e : Expr} {out : CheckedExpr} {log : List Event}
    (hok : checker.checkExpr supply signatures e = (.ok out, log)) (hacyclic : (checker.inferring supply signatures e).2.subst.Acyclic) :
    ∀ n ∈ out.typed.nodes, n.Rule Ty.explicit := by
  obtain ⟨φ, hpositional, hready, htyped⟩ := inferring_inferred hbuild htypes hrowVars signatures e
  rw [hrows] at hpositional
  have hequations := inferring_equations checker supply signatures e
  rw [checkExpr_eq] at hok
  generalize checker.inferring supply signatures e = x at *
  obtain ⟨htree, herrors, -⟩ := exported_ok hok
  have haccepts := hready.accepts_assignment hacyclic herrors hequations
  rw [htree, Substitution.nodes_applyExpr]
  exact List.forall_mem_map.mpr fun n hn => (htyped.nodes n hn).rule_applyExpr hready ⟨φ, rfl, hpositional⟩ haccepts hacyclic

theorem checkExpr_typed_cond :
    let e : Expr := .cond 0 (.binary 1 .lt (.field 2 (.record 3 [("x", .lit 4 (.int 1))]) "x") (.lit 5 (.int 2)))
      (.app 6 (.var 7 "fetch") [.lit 8 (.string "a")]) (.lit 9 (.string "b"))
    ∃ checker counters events out log, Checker.build .default .prelude ⟨0, 0⟩ = (.ok (checker, counters), events) ∧
      checker.checkExpr ⟨1024, 1024⟩ [] e = (.ok out, log) ∧ ∀ n ∈ out.typed.nodes, n.Rule Ty.explicit := by
  intro e
  obtain ⟨⟨checker, counters⟩, events, hbuild, -⟩ :=
    exists_ok_of_any (x := Checker.build .default .prelude ⟨0, 0⟩) (P := fun _ => True) (by decide +kernel)
  obtain ⟨hchecker, rfl⟩ := Checker.build_ok hbuild
  obtain ⟨out, log, hok, -⟩ :=
    exists_ok_of_any (x := checker.checkExpr ⟨1024, 1024⟩ [] e) (P := fun _ => True) (by rw [hchecker]; decide +kernel)
  have hranked : (checker.inferring ⟨1024, 1024⟩ [] e).2.subst.Ranked
      fun v => if v = .type 1026 then 0 else if v = .type 1024 then 1 else 2 := by
    rw [hchecker]
    decide +kernel
  exact ⟨checker, _, events, out, log, hbuild, hok, checkExpr_typed hbuild rfl (by decide) (by decide) hok hranked.acyclic⟩

end Checker

end RowTyping
