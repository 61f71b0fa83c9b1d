import RowTyping.Proofs.Inference.Forms

namespace RowTyping.InferM

variable {s : State} {session : Session} {sites : Sites} {env : Env}

theorem infers_cond (id : NodeId) {inferCondition inferThen inferElse : InferM TypedExpr}
    (hc : Infers session sites env inferCondition) (ht : Infers session sites env inferThen) (he : Infers session sites env inferElse) :
    Infers session sites env (cond id inferCondition inferThen inferElse) := by
  intro s hs henv hsupports
  have hinner : Keeps (within "if" do
      let c ← inferCondition
      equate c.id .ifCondition .bool c.ty
      let t ← inferThen
      let e ← inferElse
      equate id .ifBranches t.ty e.ty
      return (c, t, e)) s fun x s' => (s'.Inferred session sites x.1 ∧ s'.Inferred session sites x.2.1 ∧ s'.Inferred session sites x.2.2) ∧
        s'.Same .bool x.1.ty ∧ s'.Same x.2.1.ty x.2.2.ty := by
    refine keeps_within hs fun s₁ h₁ hs₁ => ?_
    refine (hc s₁ hs₁ (h₁.ownsEnv henv) (h₁.supports hsupports)).bind fun c s₂ h₂ hs₂ hc => ?_
    refine (keeps_equate hs₂ c.id .ifCondition (State.owns_con _) hc.ty).bind fun _ s₃ h₃ hs₃ hbool => ?_
    have h := (h₁.trans h₂).trans h₃
    refine (ht s₃ hs₃ (h.ownsEnv henv) (h.supports hsupports)).bind fun t s₄ h₄ hs₄ ht => ?_
    have h := h.trans h₄
    refine (he s₄ hs₄ (h.ownsEnv henv) (h.supports hsupports)).bind fun e s₅ h₅ hs₅ he => ?_
    refine (keeps_equate hs₅ id .ifBranches (h₅.owns ht.ty) he.ty).bind fun _ s₆ h₆ hs₆ hbranches => ?_
    refine keeps_pure hs₆ fun s₇ h₇ _ => ?_
    have h' := h₆.trans h₇
    refine ⟨⟨?_, (h₅.trans h').inferred hs₄ ht, h'.inferred hs₅ he⟩, ?_, h₇.same hbranches⟩
    · exact (((h₃.trans h₄).trans h₅).trans h').inferred hs₂ hc
    · exact ((h₄.trans h₅).trans h').same hbool
  refine hinner.bind fun x s₁ _ hs₁ ⟨⟨hc, ht, he⟩, hbool, hbranches⟩ => ?_
  refine (keeps_joinEffects hs₁ id ?_).bind fun effects s₂ h₂ hs₂ hjoins => keeps_pure hs₂ ?_
  · exact List.forall_mem_cons.mpr ⟨hc.effects, List.forall_mem_cons.mpr ⟨ht.effects, List.forall_mem_singleton.mpr he.effects⟩⟩
  · refine State.inferred_of_children ?_ (.of_nil rfl rfl) (fun _ A hA => ?_) nofun (h₂.owns ht.ty)
      (State.flows_of_join hjoins (fun c hc => List.mem_map_of_mem hc) rfl nofun) rfl
    · exact List.forall_mem_cons.mpr ⟨h₂.inferred hs₁ hc, List.forall_mem_cons.mpr ⟨h₂.inferred hs₁ ht,
        List.forall_mem_singleton.mpr (h₂.inferred hs₁ he)⟩⟩
    · have hA₁ := h₂.accepts hA
      exact ⟨(hbool A hA₁).symm, rfl, (hbranches A hA₁).symm⟩

theorem keeps_numericClass (hs : s.Ready) (t : Ty) : Keeps (numericClass t) s fun className _ => className ∈ ["Num", "Fractional"] := by
  refine keeps_get (keeps_pure hs ?_)
  split
  · exact List.mem_cons_of_mem _ List.mem_cons_self
  · exact List.mem_cons_self

theorem keeps_addOperator (hs : s.Ready) (className : String) {t operand : Ty} (ht : t.Within s.supply) (hsame : s.Same t operand)
    (node : NodeId) : Keeps (addClass className t node .operator) s fun _ s' => s'.Pending node className operand := by
  have hk := keeps_addClass hs className ht node .operator
  refine hk.mono fun _ s₁ h₁ _ ⟨path, hmem⟩ => ⟨_, hmem, rfl, rfl, rfl, h₁.same hsame⟩

section Concatenation

theorem keeps_concatenation (hs : s.Ready) (id : NodeId) {left right : Ty} (hl : s.Owns left) (hr : s.Owns right) :
    Keeps (concatenation id left right) s fun x s' => s'.Owns x.2 ∧ s'.Same left x.2 ∧ s'.Same right x.2 ∧
      s'.Entails fun A => x.1.Typed (x.2.value A) := by
  refine (keeps_flush hs).bind fun _ s₁ h₁ hs₁ _ => ?_
  refine (keeps_applied hs₁ (h₁.owns hl)).bind fun l s₂ h₂ hs₂ ⟨hlOwns, hlSame⟩ => ?_
  refine (keeps_applied hs₂ (h₂.owns (h₁.owns hr))).bind fun r s₃ h₃ hs₃ ⟨hrOwns, hrSame⟩ => ?_
  have hjoin {kind : ConcatKind} {t : Ty} {s₄ : State} (h₄ : s₃.Leads s₄) (hs₄ : s₄.Ready) (ht : s₄.Owns t)
      (htyped : s₄.Entails fun A => kind.Typed (t.value A)) :
      Keeps (equate id (.binaryOp .concat) t l >>= fun _ => equate id (.binaryOp .concat) t r >>= fun _ => pure (kind, t)) s₄
        fun x s' => s'.Owns x.2 ∧ s'.Same left x.2 ∧ s'.Same right x.2 ∧ s'.Entails fun A => x.1.Typed (x.2.value A) := by
    refine (keeps_equate hs₄ id _ ht ((h₃.trans h₄).owns hlOwns)).bind fun _ s₅ h₅ hs₅ hleft => ?_
    refine (keeps_equate hs₅ id _ (h₅.owns ht) ((h₄.trans h₅).owns hrOwns)).bind fun _ s₆ h₆ hs₆ hright => keeps_pure hs₆ ?_
    refine ⟨(h₅.trans h₆).owns ht, ?_, ?_, (h₅.trans h₆).entails htyped⟩
    · exact (h₆.same hleft |>.trans ((((h₃.trans h₄).trans h₅).trans h₆).same hlSame)).symm
    · exact (State.Same.trans hright (((h₄.trans h₅).trans h₆).same hrSame)).symm
  have hknown : s₃.Owns (if l.isVar then r else l) := by
    split
    · exact hrOwns
    · exact h₃.owns hlOwns
  dsimp only
  generalize (if l.isVar then r else l) = known at hknown
  refine keeps_ite (fun _ => hjoin (.refl s₃) hs₃ (State.owns_con _) fun _ _ => rfl) fun _ => ?_
  split
  · exact hjoin (.refl s₃) hs₃ hknown fun _ _ => ⟨_, rfl⟩
  · refine (keeps_freshType hs₃).bind fun t s₄ h₄ hs₄ ht => ?_
    exact hjoin h₄ hs₄ (State.owns_list ht) fun _ _ => ⟨_, rfl⟩
  · refine (keeps_report hs₃ id _).bind fun _ s₄ h₄ hs₄ hne => ?_
    refine (keeps_freshType hs₄).bind fun t s₅ h₅ hs₅ ht => ?_
    exact hjoin (h₄.trans h₅) hs₅ ht (State.entails_of_errors fun herrors => hne (h₅.errors herrors))

end Concatenation

theorem keeps_operation (hs : s.Ready) (id : NodeId) (op : BinaryOp) {left right : TypedExpr} (hl : s.Owns left.ty)
    (hr : s.Owns right.ty) (hop : op ≠ .concat) : Keeps (operation id op left right) s fun t s' => s'.Owns t ∧
      (s'.Entails fun A => op.Typed (left.ty.value A) (right.ty.value A) (t.value A)) ∧
      (op.classes ≠ [] → ∃ className ∈ op.classes, s'.Pending id className left.ty) := by
  refine keeps_ite (fun hlogical => ?_) fun hlogical => ?_
  · refine (keeps_equate hs left.id _ (State.owns_con _) hl).bind fun _ s₁ h₁ hs₁ hleft => ?_
    refine (keeps_equate hs₁ right.id _ (State.owns_con _) (h₁.owns hr)).bind fun _ s₂ h₂ hs₂ hright => keeps_pure hs₂ ?_
    refine ⟨State.owns_con _, fun A hA => ?_, fun hne => absurd ?_ hne⟩
    · exact (if_pos hlogical).mpr ⟨(hleft A (h₂.accepts hA)).symm, (hright A hA).symm, rfl⟩
    · cases op <;> first | rfl | cases hlogical
  · refine (keeps_equate hs id _ hl hr).bind fun _ s₁ h₁ hs₁ hequal => ?_
    refine (keeps_flush hs₁).bind fun _ s₂ h₂ hs₂ _ => ?_
    have h := h₁.trans h₂
    refine (keeps_applied hs₂ (h.owns hl)).bind fun operand s₃ h₃ hs₃ ⟨hoperand, hsame⟩ => ?_
    have hclass {className : String} {t : Ty} {s₄ : State} (hs₄ : s₄.Ready) (h₄ : s₃.Leads s₄) (hmem : className ∈ op.classes)
        (ht : s₄.Owns t) (hresult : s₄.Entails fun A => t.value A = if op.isArithmetic then left.ty.value A else .bool) :
        Keeps (addClass className operand id .operator >>= fun _ => pure t) s₄ fun t s' => s'.Owns t ∧
          (s'.Entails fun A => op.Typed (left.ty.value A) (right.ty.value A) (t.value A)) ∧
          (op.classes ≠ [] → ∃ className ∈ op.classes, s'.Pending id className left.ty) := by
      refine (keeps_addOperator hs₄ className (h₄.owns hoperand).within (h₄.same hsame) id).bind fun _ s₅ h₅ hs₅ hpending => ?_
      refine keeps_pure hs₅ ⟨h₅.owns ht, fun A hA => ?_, fun _ => ⟨className, hmem, hpending⟩⟩
      have hA₄ := h₅.accepts hA
      exact (if_neg hlogical).mpr ⟨hequal A (h₂.accepts (h₃.accepts (h₄.accepts hA₄))), hresult A hA₄⟩
    refine keeps_ite (fun harith => ?_) fun harith => ?_
    · have hresult {s₄ : State} (h₄ : s₃.Leads s₄) :
          s₄.Entails fun A => operand.value A = if op.isArithmetic then left.ty.value A else .bool :=
        (h₄.same hsame).imp fun A h => h.trans (if_pos harith).symm
      refine keeps_ite (fun hmod => ?_) fun hmod => ?_
      · subst hmod
        exact hclass hs₃ (.refl s₃) (List.mem_singleton_self _) hoperand (hresult (.refl s₃))
      · refine (keeps_numericClass hs₃ operand).bind fun className s₄ h₄ hs₄ hmem => ?_
        have hclasses : op.classes = ["Num", "Fractional"] := by rw [BinaryOp.classes, if_neg hmod, if_pos harith]
        exact hclass hs₄ h₄ (hclasses ▸ hmem) (h₄.owns hoperand) (hresult h₄)
    · refine hclass hs₃ (.refl s₃) ?_ (State.owns_con _) fun A _ => (if_neg harith).symm
      cases op <;> simp_all [BinaryOp.classes, BinaryOp.isArithmetic, BinaryOp.isComparison, BinaryOp.isEquality, BinaryOp.isLogical]

theorem infers_binary (id : NodeId) (op : BinaryOp) {inferLeft inferRight : InferM TypedExpr}
    (hl : Infers session sites env inferLeft) (hr : Infers session sites env inferRight) :
    Infers session sites env (binary id op inferLeft inferRight) := by
  intro s hs henv hsupports
  refine (hl s hs henv hsupports).bind fun l s₁ h₁ hs₁ hl => ?_
  refine (hr s₁ hs₁ (h₁.ownsEnv henv) (h₁.supports hsupports)).bind fun r s₂ h₂ hs₂ hr => ?_
  have hrows := List.forall_mem_cons.mpr ⟨h₂.ownsEffects hl.effects, List.forall_mem_singleton.mpr hr.effects⟩
  refine (keeps_joinEffects hs₂ id hrows).bind fun effects s₃ h₃ hs₃ hjoins => ?_
  have hchildren {s' : State} (h : s₃.Leads s') : ∀ c ∈ [l, r], s'.Inferred session sites c :=
    List.forall_mem_cons.mpr ⟨((h₂.trans h₃).trans h).inferred hs₁ hl, List.forall_mem_singleton.mpr ((h₃.trans h).inferred hs₂ hr)⟩
  have hlTy : s₃.Owns l.ty := (h₂.trans h₃).owns hl.ty
  have hrTy : s₃.Owns r.ty := h₃.owns hr.ty
  refine keeps_ite (fun _ => ?_) fun hop => ?_
  · refine (keeps_concatenation hs₃ id hlTy hrTy).bind fun x s₄ h₄ hs₄ ⟨ht, hleft, hright, hkind⟩ => keeps_pure hs₄ ?_
    exact State.inferred_of_children (hchildren h₄) (.of_nil rfl rfl) (fun _ A hA => ⟨hleft A hA, hright A hA, hkind A hA⟩)
      nofun ht (State.flows_of_join (h₄.joins hjoins) (fun c hc => List.mem_map_of_mem hc) rfl nofun) rfl
  · refine (keeps_operation hs₃ id op hlTy hrTy hop).bind fun t s₄ h₄ hs₄ ⟨ht, htyped, hdispatch⟩ => keeps_pure hs₄ ?_
    refine State.inferred_of_children (hchildren h₄) (.of_nil rfl rfl) (fun _ A hA => ⟨hop, htyped A hA⟩) (fun d hd _ => ?_) ht
      (State.flows_of_join (h₄.joins hjoins) (fun c hc => List.mem_map_of_mem hc) rfl nofun) rfl
    rw [TypedExpr.dispatch?] at hd
    split at hd
    · cases hd
    next hne =>
      obtain rfl := Option.some.inj hd
      exact hdispatch hne

theorem keeps_negation (hs : s.Ready) (id : NodeId) {operand : Ty} (ht : s.Owns operand) :
    Keeps (negation id operand) s fun t s' => s'.Owns t ∧ s'.Same operand t ∧
      ∃ className ∈ UnaryOp.neg.classes, s'.Pending id className operand := by
  refine (keeps_flush hs).bind fun _ s₁ h₁ hs₁ _ => ?_
  refine (keeps_applied hs₁ (h₁.owns ht)).bind fun t s₂ h₂ hs₂ ⟨ht, hsame⟩ => ?_
  refine (keeps_numericClass hs₂ t).bind fun className s₃ h₃ hs₃ hmem => ?_
  have hsame₃ : s₃.Same t operand := h₃.same hsame
  refine (keeps_addOperator hs₃ className (h₃.owns ht).within hsame₃ id).bind fun _ s₄ h₄ hs₄ hpending => keeps_pure hs₄ ?_
  exact ⟨(h₃.trans h₄).owns ht, (h₄.same hsame₃).symm, className, hmem, hpending⟩

theorem infers_unary (id : NodeId) (op : UnaryOp) {inferOperand : InferM TypedExpr} (h : Infers session sites env inferOperand) :
    Infers session sites env (unary id op inferOperand) := by
  intro s hs henv hsupports
  refine (h s hs henv hsupports).bind fun operand s₁ h₁ hs₁ hoperand => ?_
  have hflows {s₂ : State} (h₂ : s₁.Leads s₂) (t : Ty) (op : UnaryOp) :
      s₂.Flows session sites (.unary ⟨id, t, operand.effects⟩ op operand) :=
    State.flows_of_join (State.joins_singleton (h₂.ownsEffects hoperand.effects)) (fun c hc => List.mem_map_of_mem hc) rfl nofun
  cases op with
  | not =>
      refine (keeps_equate hs₁ id _ (State.owns_con _) hoperand.ty).bind fun _ s₂ h₂ hs₂ hbool => keeps_pure hs₂ ?_
      refine State.inferred_of_children (List.forall_mem_singleton.mpr (h₂.inferred hs₁ hoperand)) (.of_nil rfl rfl)
        (fun _ A hA => ⟨(hbool A hA).symm, rfl⟩) nofun (State.owns_con _) (hflows h₂ _ _) rfl
  | neg =>
      refine (keeps_negation hs₁ id hoperand.ty).bind fun t s₂ h₂ hs₂ ⟨ht, hsame, hdispatch⟩ => keeps_pure hs₂ ?_
      refine State.inferred_of_children (List.forall_mem_singleton.mpr (h₂.inferred hs₁ hoperand)) (.of_nil rfl rfl)
        (fun _ => hsame) (fun d hd _ => ?_) ht (hflows h₂ _ _) rfl
      obtain rfl := Option.some.inj hd
      exact hdispatch

end RowTyping.InferM
